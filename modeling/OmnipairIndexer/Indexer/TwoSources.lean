/-
What the two datasources leave in the tables together.

The realtime datasource subscribes anew with every connection, and the crawler asks for
transactions that may have been seen live, so a transaction can reach the pipeline several
times and in any order.  Both datasources make the same update of what the RPC reports for a
signature, and a table keyed by the signature shows each transaction once.  The log of
liquidity positions has a row for each delivery.

`create_pipeline` makes both datasources and registers the realtime one; without the other
the crawler's run is the empty one.
-/
import OmnipairIndexer.Datasource.Forwarding
import OmnipairIndexer.Indexer.CrawledRows

namespace OmnipairIndexer

open Transition LastWrite

/-! ## The chain -/

/-- What the RPC reports for a signature, whoever asks. -/
abbrev Chain := String → Crawler.FetchedTransaction

namespace Chain

/-- The update of a signature, if its transaction succeeded and can be read. -/
def update? (chain : Chain) (signature : String) : Option TransactionUpdate := do
  let metaOriginal ← (chain signature).statusMeta
  if metaOriginal.statusIsErr then none
  else
    let decodedTransaction ← (chain signature).transaction
    return ⟨signature, decodedTransaction, metaOriginal.metaNeeded, (chain signature).slot⟩

variable {chain : Chain} {update update' : TransactionUpdate}

/-- The update shows what the chain has under its signature. -/
def Has (chain : Chain) (update : TransactionUpdate) : Prop :=
  chain.update? update.signature = some update

theorem Has.unique (h : chain.Has update) (h' : chain.Has update')
    (hsame : update'.signature = update.signature) : update' = update :=
  Option.some.inj (h'.symm.trans ((congrArg chain.update? hsame).trans h))

theorem signature_of_update? {signature : String} (h : chain.update? signature = some update) :
    update.signature = signature := by
  simp only [update?, Option.bind_eq_bind, Option.bind_eq_some_iff, Option.ite_none_left_eq_some,
    Option.pure_def, Option.some.injEq] at h
  obtain ⟨metaOriginal, -, -, message, -, rfl⟩ := h
  rfl

theorem has_of_update? {signature : String} (h : chain.update? signature = some update) :
    chain.Has update := by rw [Has, signature_of_update? h, h]

end Chain

/-! ## The realtime datasource -/

def Update.transaction? : Update → Option TransactionUpdate
  | .transaction update => some update
  | _ => none

namespace HeliusWebsocket

variable {chain : Chain} {update : TransactionUpdate}

/-- The transaction frame that an action brings. -/
def IterationAction.frame? : IterationAction → Option TransactionNotification
  | transaction (.frame txEvent) => some txEvent
  | _ => none

def Action.frame? : Action → Option TransactionNotification
  | current act => act.frame?
  | past _ act => act.frame?
  | _ => none

/-- A frame shows what the chain has under its signature. -/
def Action.Reads (chain : Chain) (action : Action) : Prop :=
  ∀ txEvent ∈ action.frame?, ∀ signature ∈ txEvent.signature,
    chain signature = ⟨txEvent.statusMeta, txEvent.transaction, txEvent.slot⟩

theorem toUpdate_eq {txEvent : TransactionNotification} {signature : String}
    (hsignature : txEvent.signature = some signature)
    (hchain : chain signature = ⟨txEvent.statusMeta, txEvent.transaction, txEvent.slot⟩) :
    txEvent.toUpdate = (chain.update? signature).map .transaction := by
  simp only [TransactionNotification.toUpdate, Chain.update?, hsignature, hchain,
    Option.bind_eq_bind, Option.bind_some]
  cases txEvent.statusMeta with
  | none => rfl
  | some metaOriginal =>
    cases hstatus : metaOriginal.statusIsErr with
    | true => simp [hstatus]
    | false => cases txEvent.transaction <;> simp [hstatus]

theorem has_of_frame {action : Action} (hreads : action.Reads chain)
    {txEvent : TransactionNotification} (hframe : action.frame? = some txEvent)
    (h : txEvent.toUpdate = some (.transaction update)) : chain.Has update := by
  cases hsignature : txEvent.signature with
  | none => simp [TransactionNotification.toUpdate, hsignature] at h
  | some signature =>
    rw [toUpdate_eq hsignature (hreads txEvent hframe signature hsignature),
      Option.map_eq_some_iff] at h
    obtain ⟨update', hupdate, heq⟩ := h
    cases heq
    exact Chain.has_of_update? hupdate

/-- A task of an account makes no update of a transaction. -/
theorem frame_of_update? {accountDeletionsTracked : List Pubkey} {it : Iteration}
    {act : IterationAction} {account : Option Nat}
    (h : act.update? accountDeletionsTracked it = some (account, .transaction update)) :
    ∃ txEvent, act.frame? = some txEvent ∧ txEvent.toUpdate = some (.transaction update) := by
  cases act with
  | account idx event =>
    simp only [IterationAction.update?, Option.bind_eq_some_iff, Option.map_eq_some_iff,
      Prod.mk.injEq] at h
    obtain ⟨entry, -, update', hupdate, -, rfl⟩ := h
    cases event with
    | frame accEvent =>
      simp only [SubscriptionEvent.update?, AccountNotification.toUpdate,
        Option.bind_eq_some_iff] at hupdate
      obtain ⟨decodedAccount, -, hupdate⟩ := hupdate
      split at hupdate
      · split at hupdate <;> cases hupdate
      · cases hupdate
    | _ => cases hupdate
  | transaction event =>
    obtain ⟨update', hupdate, heq⟩ := Option.map_eq_some_iff.mp h
    cases heq
    cases event with
    | frame txEvent => exact ⟨txEvent, rfl, hupdate⟩
    | _ => cases hupdate
  | _ => cases h

theorem frame_of_offer? {s : State} {action : Action} {x : Offer}
    (h : action.offer? s = some x) (hupdate : x.update = .transaction update) :
    ∃ txEvent, action.frame? = some txEvent ∧ txEvent.toUpdate = some (.transaction update) := by
  simp only [Action.offer?, Option.bind_eq_bind, Option.bind_eq_some_iff, Option.pure_def,
    Option.some.injEq] at h
  obtain ⟨⟨connection, act⟩, hin, it, -, ⟨account, update'⟩, hmade, rfl⟩ := h
  cases hupdate
  obtain ⟨txEvent, hframe, htoUpdate⟩ := frame_of_update? hmade
  refine ⟨txEvent, ?_, htoUpdate⟩
  cases action with
  | current act' => cases hin; exact hframe
  | past idx act' =>
    simp only [Action.inConnection, Option.ite_none_right_eq_some, Option.some.injEq,
      Prod.mk.injEq] at hin
    rw [← hin.2.2] at hframe
    exact hframe
  | _ => cases hin

namespace Forwarding

/-- Whatever is offered is of the chain. -/
theorem has_of_offers {s : State} {f : Forwarding} {actions : List Action}
    (hreads : ∀ action ∈ actions, action.Reads chain)
    (hrun : run step (start s) actions = some f) :
    ∀ x ∈ f.offers, ∀ update ∈ x.update.transaction?, chain.Has update := by
  refine run_invariant (P := fun _ action => action.Reads chain)
    (I := fun f => ∀ x ∈ f.offers, ∀ update ∈ x.update.transaction?, chain.Has update)
    (fun f action g hf haction hstep => ?_) (fun x hx => absurd hx List.not_mem_nil)
    (along_of_forall hreads) hrun
  obtain ⟨t, -, rfl⟩ := Option.map_eq_some_iff.mp hstep
  intro x hx update hupdate
  obtain hold | hnew := List.mem_append.mp hx
  · exact hf x hold update hupdate
  · have htransaction : x.update = .transaction update := by
      cases hx : x.update <;> rw [hx] at hupdate <;> cases hupdate
      rfl
    obtain ⟨txEvent, hframe, htoUpdate⟩ :=
      frame_of_offer? (Option.mem_toList.mp hnew) htransaction
    exact has_of_frame haction hframe htoUpdate

/-- The transaction updates that the pipeline has taken. -/
def transactions (f : Forwarding) : List TransactionUpdate :=
  f.received.filterMap Update.transaction?

theorem has_of_transactions {s : State} {f : Forwarding} {actions : List Action}
    (hempty : s.channel.queued = []) (hreads : ∀ action ∈ actions, action.Reads chain)
    (hrun : run step (start s) actions = some f) :
    ∀ update ∈ f.transactions, chain.Has update := by
  intro update hmem
  obtain ⟨received, hreceived, hupdate⟩ := List.mem_filterMap.mp hmem
  have htaken : received ∈ taken f.offers := by
    have haccount := (sound_of_run hrun).account
    rw [hempty, List.nil_append] at haccount
    rw [← haccount]
    exact List.mem_append_left _ hreceived
  obtain ⟨x, hx, rfl⟩ := List.mem_map.mp htaken
  exact has_of_offers hreads hrun x (List.mem_filter.mp hx).1 update hupdate

end Forwarding

end HeliusWebsocket

/-! ## The crawler -/

namespace Crawler

variable {chain : Chain} {crawler : Crawler} {s : State}

theorem has_of_toUpdate {fetched : Fetched} {update : TransactionUpdate}
    (hchain : fetched.2 = chain fetched.1) (h : crawler.toUpdate fetched = some update) :
    chain.Has update := by
  refine @Chain.has_of_update? chain update fetched.1 ?_
  simp only [toUpdate, hchain, Option.bind_eq_bind, Option.bind_eq_some_iff,
    Option.ite_none_left_eq_some, Option.pure_def, Option.some.injEq] at h
  obtain ⟨metaOriginal, hmeta, hstatus, message, hmessage, -, rfl⟩ := h
  simp [Chain.update?, hmeta, hmessage, hstatus]

theorem State.Sound.has_of_updates (h : s.Sound crawler)
    (hchain : ∀ fetched ∈ s.fetched, fetched.2 = chain fetched.1) :
    ∀ update ∈ s.updates, chain.Has update := by
  intro update hmem
  obtain ⟨⟨fetched, outcome⟩, hprocessed, hsent⟩ := List.mem_filterMap.mp hmem
  have hfetched : fetched ∈ s.fetched := by
    rw [← h.order, List.append_assoc, List.append_assoc]
    exact List.mem_append_left _ (List.mem_map_of_mem hprocessed)
  have hmade := h.processed _ hprocessed
  cases outcome with
  | sent update' =>
    cases hsent
    exact has_of_toUpdate (hchain fetched hfetched) hmade
  | _ => cases hsent

end Crawler

/-! ## Both -/

def lpRowsOf (updates : List TransactionUpdate) : List UserLpPositionUpdatedRow :=
  (updates.filterMap TransactionUpdate.indexed).flatMap IndexedTransaction.lpRows

theorem lpRows_processAll (updates : List TransactionUpdate) {w : World} (hw : w.Healthy) :
    lpRows (processAll updates w).db = lpRows w.db ++ lpRowsOf updates := by
  rw [processAll_eq_deliverAll, lpRows_deliverAll _ hw]
  rfl

/-- For every run of the realtime datasource and every run of the crawler, over one chain:
however what they give to the pipeline is interleaved, with nothing failing from outside, a
table keyed by the signature has under the signature of each update the row that its reported
events write last, or what was there if they write none, and under other signatures it is as
before.  The log of liquidity positions has the rows that each update given writes to it, from
both.  What comes behind a value out of range in an update is not written. -/
theorem both_sources_stored (chain : Chain) (filters : HeliusWebsocket.Filters)
    (accountDeletionsTracked : List Pubkey) (capacity : Nat) (closed : Bool)
    (live : List HeliusWebsocket.Action) (f : HeliusWebsocket.Forwarding)
    (hlive : run HeliusWebsocket.Forwarding.step
      (.start (HeliusWebsocket.consume filters accountDeletionsTracked ⟨[], capacity, closed⟩))
      live = some f)
    (hframes : ∀ action ∈ live, action.Reads chain)
    (crawler : Crawler) (history : History) (crawl : List Crawler.Action) (s : Crawler.State)
    (hcrawl : run (Crawler.step crawler) (Crawler.start crawler history) crawl = some s)
    (hfetched : ∀ fetched ∈ s.fetched, fetched.2 = chain fetched.1)
    (feed : List TransactionUpdate) (hfeed : feed.Perm (f.transactions ++ s.updates))
    {w : World} (hw : w.Healthy) {ν : Type} {V : KeyedView String ν} (hV : V.KeyedBySignature) :
    (∀ update ∈ feed, update.Recorded → ∀ events, update.Reports events →
      V.view (processAll feed w).db update.signature =
        (last update.signature
          (V.writesOfTransaction ⟨update.signature, update.slot, events⟩)).or
          (V.view w.db update.signature)) ∧
      (∀ k ∉ feed.map TransactionUpdate.signature,
        V.view (processAll feed w).db k = V.view w.db k) ∧
      (lpRows (processAll feed w).db).Perm
        (lpRows w.db ++ (lpRowsOf f.transactions ++ lpRowsOf s.updates)) := by
  have hhas : ∀ update ∈ feed, chain.Has update := by
    intro update hmem
    obtain hmem | hmem := List.mem_append.mp (hfeed.subset hmem)
    · exact HeliusWebsocket.Forwarding.has_of_transactions rfl hframes hlive update hmem
    · exact (Crawler.sound_of_run hcrawl).has_of_updates hfetched update hmem
  refine ⟨?_, ?_, ?_⟩
  · intro update hupdate hrecorded events hreports
    have hone : ∀ other ∈ feed, other.signature = update.signature → other = update :=
      fun other hother hsame => (hhas update hupdate).unique (hhas other hother) hsame
    exact hV.processAll_of_one hupdate hone hrecorded hreports hw
  · intro k hk
    exact hV.processAll_of_other hk hw
  · rw [lpRows_processAll feed hw]
    apply List.Perm.append_left
    simp only [lpRowsOf]
    rw [← List.flatMap_append, ← List.filterMap_append]
    exact (hfeed.filterMap _).flatMap_right _

def debtChain : Chain := fun signature =>
  if signature = "a" then Crawler.debtFetched 5 4 else Crawler.debtFetched 7 6

/-- The transaction that the crawler obtains first is also seen live. -/
def debtLive : List HeliusWebsocket.Action :=
  [.checkCancellation, .connected, .current (.transaction .subscribed),
    .current (.transaction (.frame ⟨some "a", (Crawler.debtFetched 5 4).statusMeta,
      (Crawler.debtFetched 5 4).transaction, 4⟩)), .receive]

theorem debtLive_reads : ∀ action ∈ debtLive, action.Reads debtChain := by
  intro action haction txEvent hframe signature hsignature
  simp only [debtLive, List.mem_cons, List.not_mem_nil, or_false] at haction
  obtain rfl | rfl | rfl | rfl | rfl := haction <;> cases hframe
  cases hsignature
  rfl

theorem twoDebtsCrawled_fetched :
    (run (Crawler.step Crawler.twoSlots) (Crawler.start Crawler.twoSlots StartBlock.twoSlots)
      Crawler.twoDebtsCrawled).map Crawler.State.fetched =
      some [("a", Crawler.debtFetched 5 4), ("b", Crawler.debtFetched 7 6)] := rfl

/-- The transaction is delivered by both, and its row is there once. -/
theorem both_sources_stored_twoDebts :
    ∃ f s, run HeliusWebsocket.Forwarding.step
        (.start (HeliusWebsocket.consume ⟨[], true⟩ [] ⟨[], 1, false⟩)) debtLive = some f ∧
      f.transactions.length = 1 ∧
      run (Crawler.step Crawler.twoSlots) (Crawler.start Crawler.twoSlots StartBlock.twoSlots)
        Crawler.twoDebtsCrawled = some s ∧
      (adjustDebtView.view (processAll (f.transactions ++ s.updates) World.fresh).db "a").map
        AdjustEventRow.amount0 = some 5 := by
  have hlive : (run HeliusWebsocket.Forwarding.step
      (.start (HeliusWebsocket.consume ⟨[], true⟩ [] ⟨[], 1, false⟩)) debtLive).any
        fun f => f.transactions.length = 1 := by decide +kernel
  obtain ⟨f, hf, htransactions⟩ := (Option.any_eq_true ..).mp hlive
  obtain ⟨s, hs, update, hupdate, hrecorded, hindexed⟩ := Crawler.twoDebtsCrawled_run
  have hfetched : s.fetched = [("a", Crawler.debtFetched 5 4), ("b", Crawler.debtFetched 7 6)] := by
    have h := twoDebtsCrawled_fetched
    rw [hs] at h
    exact Option.some.inj h
  have hchain : ∀ fetched ∈ s.fetched, fetched.2 = debtChain fetched.1 := by
    rw [hfetched]
    intro fetched hmem
    obtain rfl | hmem := List.mem_cons.mp hmem
    · rfl
    · rw [List.mem_singleton.mp hmem]
      rfl
  obtain ⟨hrows, -⟩ := both_sources_stored debtChain ⟨[], true⟩ [] 1 false debtLive f hf
    debtLive_reads Crawler.twoSlots StartBlock.twoSlots Crawler.twoDebtsCrawled s hs hchain
    (f.transactions ++ s.updates) (.refl _) World.fresh_healthy adjustDebt_keyedBySignature
  obtain ⟨hsignature, hslot, hreports⟩ :=
    (TransactionUpdate.indexed_iff hrecorded Crawler.debtIndexed).mp hindexed
  have hrow := hrows update (List.mem_append_right _ hupdate) hrecorded _ hreports
  rw [← hsignature, ← hslot] at hrow
  refine ⟨f, s, hf, of_decide_eq_true htransactions, hs, ?_⟩
  rw [show "a" = Crawler.debtIndexed.signature from rfl, hrow]
  decide +kernel

end OmnipairIndexer
