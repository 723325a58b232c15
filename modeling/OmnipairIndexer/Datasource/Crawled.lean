/-
What `RpcTransactionCrawler` sends to the pipeline, over whole runs.

A signature that the fetcher has found is in one place: still in the channel, asked for,
given up, or its transaction is somewhere between the transaction fetcher and the
pipeline.  So no transaction is sent twice, and when nothing is left on the way, a crawler
that waits for room has sent every update there is.  Requests finish in any order, but a
transaction passes fewer earlier ones than there are requests at a time.
-/
import OmnipairIndexer.Datasource.CrawlerTasks

namespace OmnipairIndexer

open Transition

namespace Crawler

variable {crawler : Crawler} {history : History} {s t : State}

/-! ## The signatures -/

theorem answer_fetcher {maxRetries i : Nat} {transaction : Option FetchedTransaction}
    (ht : answer maxRetries i transaction s = some t) : t.fetcher = s.fetcher := by
  unfold answer at ht
  grind

theorem step_fetcher {action : Action} (ht : step crawler s action = some t) :
    t.fetcher = s.fetcher ∨
      ∃ fetch, SignatureFetcher.step crawler.batchLimit s.fetcher fetch = some t.fetcher := by
  cases action with
  | signatures action =>
    simp only [step, Option.ite_none_right_eq_some, Option.map_eq_some_iff] at ht
    obtain ⟨-, fetcher, hfetcher, rfl⟩ := ht
    exact .inr ⟨action, hfetcher⟩
  | request =>
    simp only [step, Option.ite_none_right_eq_some, Option.map_eq_some_iff] at ht
    obtain ⟨-, requests, -, rfl⟩ := ht
    exact .inl rfl
  | answer i transaction =>
    simp only [step, Option.ite_none_right_eq_some] at ht
    exact .inl (answer_fetcher ht.2)
  | sendSignature => left; unfold step at ht; grind
  | sendTransaction => left; unfold step at ht; grind
  | process => left; unfold step at ht; grind
  | sendUpdate hasRoom => left; unfold step at ht; grind

theorem standing_of_run {actions : List Action} (hbefore : crawler.filters.beforeSignature = none)
    (hbatch : 0 < crawler.batchLimit)
    (hrun : run (step crawler) (start crawler history) actions = some s) :
    SignatureFetcher.Standing crawler.filters.untilSignature s.fetcher := by
  refine run_preserves
    (I := fun s => SignatureFetcher.Standing crawler.filters.untilSignature s.fetcher)
    (fun _ _ _ h ht => ?_) (SignatureFetcher.standing_start hbefore) hrun
  obtain hsame | ⟨fetch, hfetch⟩ := step_fetcher ht
  · rw [hsame]
    exact h
  · exact h.of_step hbatch hfetch

/-! ## Where a signature is -/

namespace State

/-- The signatures asked for. -/
def inFlight (s : State) : List String :=
  s.requests.inFlight.filterMap fun task => s.fetcher.sent[task.1]?

/-- The transactions on the way from the transaction fetcher to the pipeline. -/
def onTheWay (s : State) : List Fetched :=
  (s.processing.map Prod.fst).toList ++ s.transactions ++ s.sending.toList

/-- Nothing is on the way. -/
structure AtRest (s : State) : Prop where
  taken : s.requests.taken = s.fetcher.sent.length
  inFlight : s.requests.inFlight = []
  sending : s.sending = none
  transactions : s.transactions = []
  processing : s.processing = none

end State

theorem filterMap_range_getElem {α : Type*} (xs : List α) {n : Nat} (h : n ≤ xs.length) :
    (List.range n).filterMap (fun i => xs[i]?) = xs.take n := by
  induction n with
  | zero => simp
  | succ n ih =>
    rw [List.range_succ, List.filterMap_append, ih (Nat.le_of_succ_le h),
      List.take_succ_eq_append_getElem h, List.filterMap_cons, List.getElem?_eq_getElem h]
    rfl

/-- A finished request gave a transaction or was given up. -/
theorem perm_finished (sent : List String) (finished : List (Nat × Option FetchedTransaction)) :
    ((finished.filterMap (fetchedOf sent)).map Prod.fst ++
        finished.filterMap fun p => if p.2.isNone then sent[p.1]? else none).Perm
      (finished.filterMap fun p => sent[p.1]?) := by
  induction finished with
  | nil => exact List.Perm.refl _
  | cons p finished ih =>
    obtain ⟨place, result⟩ := p
    cases hsignature : sent[place]? with
    | none => cases result <;> simpa [List.filterMap_cons, fetchedOf, hsignature] using ih
    | some signature =>
      cases result with
      | none =>
        simp only [List.filterMap_cons, fetchedOf, hsignature, Option.bind_none, Option.isNone_none,
          if_true]
        exact List.perm_middle.trans (ih.cons signature)
      | some tx =>
        simp only [List.filterMap_cons, fetchedOf, hsignature, Option.bind_some, Option.map_some,
          Option.isNone_some, List.map_cons, Bool.false_eq_true, if_false]
        exact ih.cons signature

theorem State.Sound.account (h : s.Sound crawler) :
    (s.processed.map (fun p => p.1.1) ++ s.onTheWay.map Prod.fst ++ s.gaveUp ++ s.inFlight ++
      s.fetcher.sent.drop s.requests.taken).Perm s.fetcher.sent := by
  have hfetched : s.processed.map (fun p => p.1.1) ++ s.onTheWay.map Prod.fst =
      s.fetched.map Prod.fst := by
    rw [← h.order, State.onTheWay]
    simp [List.map_map, Function.comp_def]
  have hplaces : (s.requests.finished.filterMap (fun p => s.fetcher.sent[p.1]?) ++
      s.inFlight).Perm (s.fetcher.sent.take s.requests.taken) := by
    rw [← filterMap_range_getElem _ (Nat.le_trans h.taken h.queued)]
    refine List.Perm.trans ?_ (h.requests.account.filterMap fun place => s.fetcher.sent[place]?)
    rw [List.filterMap_append, List.filterMap_map, List.filterMap_map]
    exact List.Perm.refl _
  rw [hfetched, State.fetched, State.gaveUp]
  refine List.Perm.trans (((perm_finished _ _).append_right _).append_right _) ?_
  refine (hplaces.append_right _).trans (List.Perm.of_eq ?_)
  exact List.take_append_drop _ _

theorem toUpdate_signature {fetched : Fetched} {update : TransactionUpdate}
    (h : crawler.toUpdate fetched = some update) : update.signature = fetched.1 := by
  simp only [toUpdate, Option.bind_eq_bind, Option.bind_eq_some_iff, Option.ite_none_left_eq_some,
    Option.pure_def, Option.some.injEq] at h
  obtain ⟨metaOriginal, -, -, message, -, -, rfl⟩ := h
  rfl

/-- What was sent is part of what was processed. -/
theorem State.Sound.updates_sublist (h : s.Sound crawler) :
    (s.updates.map TransactionUpdate.signature).Sublist (s.processed.map fun p => p.1.1) := by
  have hprocessed := h.processed
  rw [State.updates]
  generalize s.processed = processed at hprocessed ⊢
  induction processed with
  | nil => exact List.Sublist.slnil
  | cons p processed ih =>
    obtain ⟨hp, hrest⟩ := List.forall_mem_cons.mp hprocessed
    obtain ⟨fetched, outcome⟩ := p
    cases outcome with
    | sent update =>
      have hsignature : update.signature = fetched.1 := toUpdate_signature hp
      simp only [List.filterMap_cons, Outcome.sent?, List.map_cons, hsignature]
      exact (ih hrest).cons_cons _
    | notSent update => exact (ih hrest).cons _
    | skipped => exact (ih hrest).cons _

/-- No transaction is sent twice. -/
theorem State.Sound.updates_nodup (h : s.Sound crawler) (hnodup : s.fetcher.sent.Nodup) :
    (s.updates.map TransactionUpdate.signature).Nodup := by
  have hall := h.account.nodup_iff.mpr hnodup
  rw [List.append_assoc, List.append_assoc, List.append_assoc] at hall
  exact (List.nodup_append.mp hall).1.sublist h.updates_sublist

/-- Two signatures are found, and the transaction of the older one comes first. -/
def twoTransactions : List Action :=
  let tx : FetchedTransaction :=
    ⟨some ⟨false, none, none⟩, some (.legacy [] [] (fun _ => false) fun _ => false), 4⟩
  [.signatures (.fetch 2), .sendSignature, .sendSignature, .request, .request, .answer 1 (some tx),
    .sendTransaction, .process, .sendUpdate true, .answer 0 (some tx), .sendTransaction, .process,
    .sendUpdate true]

/-- The crawler of the indexer, with two signatures to find. -/
def twoSlots : Crawler := .create StartBlock.fullRpc StartBlock.twoSlots none

theorem twoTransactions_run :
    ∃ s, run (step twoSlots) (start twoSlots StartBlock.twoSlots) twoTransactions = some s ∧
      s.AtRest ∧ getSignatures s.fetcher.history s.fetcher.lastFetchedSignature
        s.fetcher.untilSignature twoSlots.batchLimit 2 = [] ∧
      (step twoSlots s (.signatures (.fetch 2))).isSome ∧
      s.updates.map TransactionUpdate.signature = ["a", "b"] ∧ s.requests.finished.length = 2 := by
  have h : (run (step twoSlots) (start twoSlots StartBlock.twoSlots) twoTransactions).any (fun s =>
      (s.requests.taken = s.fetcher.sent.length ∧ s.requests.inFlight = [] ∧ s.sending.isNone ∧
        s.transactions.isEmpty ∧ s.processing.isNone) ∧
      getSignatures s.fetcher.history s.fetcher.lastFetchedSignature
        s.fetcher.untilSignature twoSlots.batchLimit 2 = [] ∧
      (step twoSlots s (.signatures (.fetch 2))).isSome ∧
      s.updates.map TransactionUpdate.signature = ["a", "b"] ∧
      s.requests.finished.length = 2) := by
    decide +kernel
  obtain ⟨s, hs, h⟩ := (Option.any_eq_true ..).mp h
  obtain ⟨⟨htaken, hinFlight, hsending, htransactions, hprocessing⟩, h⟩ := of_decide_eq_true h
  exact ⟨s, hs, ⟨htaken, hinFlight, Option.isNone_iff_eq_none.mp hsending,
    List.isEmpty_iff.mp htransactions, Option.isNone_iff_eq_none.mp hprocessing⟩, h⟩

/-- At any time, and in whatever order the tasks and the RPC act, every signature the fetcher
has found is at one place of the crawler, no transaction has been sent to the pipeline
twice, and no more requests or waiting transactions are there than the configuration
allows. -/
theorem crawler_account (crawler : Crawler) (history : History)
    (hbefore : crawler.filters.beforeSignature = none) (hbatch : 0 < crawler.batchLimit)
    (actions : List Action) (s : State)
    (hrun : run (step crawler) (start crawler history) actions = some s) :
    (s.processed.map (fun p => p.1.1) ++ s.onTheWay.map Prod.fst ++ s.gaveUp ++ s.inFlight ++
        s.fetcher.sent.drop s.requests.taken).Perm s.fetcher.sent ∧
      s.fetcher.sent.Nodup ∧ (s.updates.map TransactionUpdate.signature).Nodup ∧
      s.requests.inFlight.length ≤ crawler.connectionConfig.maxConcurrentRequests ∧
      s.transactions.length ≤ crawler.transactionChannelSize ∧
      s.queued ≤ s.requests.taken + crawler.signatureChannelSize := by
  have h := sound_of_run hrun
  have hnodup := (standing_of_run hbefore hbatch hrun).sent_nodup
  exact ⟨h.account, hnodup, h.updates_nodup hnodup, h.requests.room, h.transactions, h.signatures⟩

theorem crawler_account_twoTransactions :
    ∃ s : State, s.updates.map TransactionUpdate.signature = ["a", "b"] ∧
      (s.updates.map TransactionUpdate.signature).Nodup ∧ s.requests.inFlight.length ≤ 5 := by
  obtain ⟨s, hs, -, -, -, hupdates, -⟩ := twoTransactions_run
  have h := crawler_account twoSlots StartBlock.twoSlots rfl (by decide) twoTransactions s hs
  exact ⟨s, hupdates, h.2.2.1, h.2.2.2.1⟩

/-! ## A crawler at rest -/

theorem State.Sound.updates_eq (h : s.Sound crawler) (hrest : s.AtRest)
    (hblocking : crawler.connectionConfig.blockingSend = true) :
    s.updates = s.fetched.filterMap crawler.toUpdate := by
  have horder := h.order
  rw [hrest.processing, hrest.transactions, hrest.sending, Option.map_none, Option.toList_none,
    List.append_nil, List.append_nil, List.append_nil] at horder
  rw [State.updates, ← horder, List.filterMap_map]
  refine List.filterMap_congr fun p hp => ?_
  obtain ⟨fetched, outcome⟩ := p
  have houtcome := h.processed _ hp
  cases outcome with
  | sent update => exact houtcome.symm
  | notSent update => exact absurd (hblocking.symm.trans houtcome.2) (by decide)
  | skipped => exact houtcome.symm

/-- The updates with a signature come from the transactions with it. -/
theorem filter_updates (crawler : Crawler) (fetched : List Fetched) (signature : String) :
    (fetched.filterMap crawler.toUpdate).filter (fun update => update.signature = signature) =
      (fetched.filter fun f => f.1 = signature).filterMap crawler.toUpdate := by
  rw [List.filter_filterMap, List.filterMap_filter]
  refine List.filterMap_congr fun f _ => ?_
  cases hupdate : crawler.toUpdate f with
  | none => simp
  | some update =>
    rw [← toUpdate_signature hupdate]
    by_cases hsignature : update.signature = signature <;> simp [Option.filter, hsignature]

/-- Among pairs with different keys one pair has a key. -/
theorem filter_fst_of_nodup {fetched : List Fetched} (hnodup : (fetched.map Prod.fst).Nodup)
    {f : Fetched} (hmem : f ∈ fetched) : fetched.filter (fun g => g.1 = f.1) = [f] := by
  induction fetched with
  | nil => cases hmem
  | cons first fetched ih =>
    rw [List.map_cons, List.nodup_cons] at hnodup
    obtain rfl | hmem := List.mem_cons.mp hmem
    · rw [List.filter_cons_of_pos (by simp), List.filter_eq_nil_iff.mpr]
      intro g hg hsame
      exact hnodup.1 (of_decide_eq_true hsame ▸ List.mem_map_of_mem hg)
    · rw [List.filter_cons_of_neg, ih hnodup.2 hmem]
      intro hsame
      exact hnodup.1 (of_decide_eq_true hsame ▸ List.mem_map_of_mem hmem)

/-- When a sweep ends and nothing is on the way, a crawler that waits for room has sent, for
each signature that is strictly newer than `until_signature` and not newer than the newest
one found, exactly the update of the transaction it got for it, if it makes one of it,
unless it gave the signature up. -/
theorem swept_window_sent (crawler : Crawler) (history : History)
    (hbefore : crawler.filters.beforeSignature = none) (hbatch : 0 < crawler.batchLimit)
    (hblocking : crawler.connectionConfig.blockingSend = true) (actions : List Action)
    (s u : State) (hrun : run (step crawler) (start crawler history) actions = some s)
    (hrest : s.AtRest) (size : Nat)
    (hempty : getSignatures s.fetcher.history s.fetcher.lastFetchedSignature
      s.fetcher.untilSignature crawler.batchLimit size = [])
    (hu : step crawler s (.signatures (.fetch size)) = some u) :
    ∀ info ∈ newerThan crawler.filters.untilSignature u.fetcher.history,
      info ∈ u.fetcher.fromNewestSent →
        info.signature ∈ u.gaveUp ∨
          ∃ tx, (info.signature, tx) ∈ u.fetched ∧
            u.updates.filter (fun update => update.signature = info.signature) =
              (crawler.toUpdate (info.signature, tx)).toList := by
  have hstanding := standing_of_run hbefore hbatch hrun
  have hu' : u = { s with fetcher := s.fetcher.fetched [] } := by
    simp only [step, Option.ite_none_right_eq_some, Option.map_eq_some_iff,
      SignatureFetcher.step, Option.some.injEq] at hu
    obtain ⟨-, fetcher, rfl, rfl⟩ := hu
    rw [hempty]
  have hrun' : run (step crawler) (start crawler history)
      (actions ++ [.signatures (.fetch size)]) = some u := run_concat_eq_some.mpr ⟨s, hrun, hu⟩
  have h := sound_of_run hrun'
  have hnodup := (standing_of_run hbefore hbatch hrun').sent_nodup
  have hrest' : u.AtRest := by
    subst hu'
    exact ⟨hrest.taken, hrest.inFlight, hrest.sending, hrest.transactions, hrest.processing⟩
  intro info huntil hnewest
  have hsent : info.signature ∈ u.fetcher.sent := by
    subst hu'
    exact hstanding.sent_of_empty hbatch hempty huntil hnewest
  have haccount : (u.fetched.map Prod.fst ++ u.gaveUp).Perm u.fetcher.sent := by
    have hall := h.account
    rw [State.onTheWay, hrest'.processing, hrest'.transactions, hrest'.sending, hrest'.taken,
      State.inFlight, hrest'.inFlight, List.drop_length] at hall
    have horder := h.order
    rw [hrest'.processing, hrest'.transactions, hrest'.sending] at horder
    rw [← horder]
    simpa [List.map_map, Function.comp_def] using hall
  obtain hfetched | hgaveUp := List.mem_append.mp (haccount.mem_iff.mpr hsent)
  · right
    obtain ⟨f, hf, hsignature⟩ := List.mem_map.mp hfetched
    obtain ⟨signature, tx⟩ := f
    cases hsignature
    refine ⟨tx, hf, ?_⟩
    have hfetchedNodup := (List.nodup_append.mp (haccount.nodup_iff.mpr hnodup)).1
    have hone : u.fetched.filter (fun g => g.1 = info.signature) = [(info.signature, tx)] :=
      filter_fst_of_nodup hfetchedNodup hf
    rw [h.updates_eq hrest' hblocking, filter_updates, hone, List.filterMap_cons]
    cases crawler.toUpdate (info.signature, tx) <;> rfl
  · exact .inl hgaveUp

theorem swept_window_sent_twoTransactions :
    ∃ s u, step twoSlots s (.signatures (.fetch 2)) = some u ∧
      ∀ info ∈ newerThan none u.fetcher.history, info ∈ u.fetcher.fromNewestSent →
        info.signature ∈ u.gaveUp ∨
          ∃ tx, (info.signature, tx) ∈ u.fetched ∧
            u.updates.filter (fun update => update.signature = info.signature) =
              (twoSlots.toUpdate (info.signature, tx)).toList := by
  obtain ⟨s, hs, hrest, hempty, hfetch, -⟩ := twoTransactions_run
  obtain ⟨u, hu⟩ := Option.isSome_iff_exists.mp hfetch
  exact ⟨s, u, hu, swept_window_sent twoSlots StartBlock.twoSlots rfl (by decide) rfl
    twoTransactions s u hs hrest 2 hempty hu⟩

/-! ## The order of the updates -/

theorem mem_of_mem_filterMap_fetchedOf {sent : List String}
    {finished : List (Nat × Option FetchedTransaction)} {f : Fetched}
    (hf : f ∈ finished.filterMap (fetchedOf sent)) :
    ∃ p ∈ finished, sent[p.1]? = some f.1 := by
  obtain ⟨p, hp, hf⟩ := List.mem_filterMap.mp hf
  simp only [fetchedOf, Option.bind_eq_some_iff, Option.map_eq_some_iff] at hf
  obtain ⟨tx, -, signature, hsignature, rfl⟩ := hf
  exact ⟨p, hp, hsignature⟩

/-- A request finished when its update was sent, and those of later updates finished
after it. -/
theorem State.Sound.finished_of_updates (h : s.Sound crawler) {front back : List TransactionUpdate}
    {update : TransactionUpdate} (hsplit : s.updates = front ++ update :: back) :
    ∃ before p after, s.requests.finished = before ++ p :: after ∧
      s.fetcher.sent[p.1]? = some update.signature ∧
      ∀ later ∈ back, ∃ q ∈ after, s.fetcher.sent[q.1]? = some later.signature := by
  rw [State.updates, List.filterMap_eq_append_iff] at hsplit
  obtain ⟨done, rest, hprocessed, -, hrest⟩ := hsplit
  rw [List.filterMap_eq_cons_iff] at hrest
  obtain ⟨skipped, sent, behind, rfl, -, hsent, hback⟩ := hrest
  have hsignature : ∀ p ∈ s.processed, ∀ u, p.2.sent? = some u → u.signature = p.1.1 := by
    intro p hp u hu
    have houtcome := h.processed p hp
    obtain ⟨fetched, outcome⟩ := p
    cases outcome with
    | sent v =>
      cases hu
      exact toUpdate_signature houtcome
    | notSent v => cases hu
    | skipped => cases hu
  have horder : s.requests.finished.filterMap (fetchedOf s.fetcher.sent) =
      (done ++ skipped).map Prod.fst ++ sent.1 :: (behind.map Prod.fst ++ s.onTheWay) := by
    refine h.order.symm.trans ?_
    rw [hprocessed, State.onTheWay]
    simp
  rw [List.filterMap_eq_append_iff] at horder
  obtain ⟨before, rest, hfinished, -, horder⟩ := horder
  rw [List.filterMap_eq_cons_iff] at horder
  obtain ⟨gaveUp, p, after, rfl, -, hp, hafter⟩ := horder
  refine ⟨before ++ gaveUp, p, after, by rw [hfinished, List.append_assoc], ?_, ?_⟩
  · rw [hsignature sent (by simp [hprocessed]) update hsent]
    simp only [fetchedOf, Option.bind_eq_some_iff, Option.map_eq_some_iff] at hp
    obtain ⟨tx, -, signature, hplace, hp⟩ := hp
    rw [hplace, ← hp]
  · intro later hlater
    rw [← hback] at hlater
    obtain ⟨q, hq, hlater⟩ := List.mem_filterMap.mp hlater
    rw [hsignature q (by simp [hprocessed, hq]) later hlater]
    apply mem_of_mem_filterMap_fetchedOf
    rw [hafter]
    exact List.mem_append_left _ (List.mem_map_of_mem hq)

/-- Updates are sent in the order in which the fetcher found their signatures, up to this:
fewer than `max_concurrent_requests` of the signatures found before that of an update are
those of updates sent after it. -/
theorem overtakes_few (crawler : Crawler) (history : History)
    (hbefore : crawler.filters.beforeSignature = none) (hbatch : 0 < crawler.batchLimit)
    (actions : List Action) (s : State)
    (hrun : run (step crawler) (start crawler history) actions = some s)
    (front back : List TransactionUpdate) (update : TransactionUpdate)
    (hsplit : s.updates = front ++ update :: back) :
    ∃ place, s.fetcher.sent[place]? = some update.signature ∧
      ((s.fetcher.sent.take place).filter fun signature =>
        signature ∈ back.map TransactionUpdate.signature).length <
          crawler.connectionConfig.maxConcurrentRequests := by
  have h := sound_of_run hrun
  have hnodup := (standing_of_run hbefore hbatch hrun).sent_nodup
  obtain ⟨before, p, after, hfinished, hplace, hback⟩ := h.finished_of_updates hsplit
  have hlt : p.1 < s.fetcher.sent.length := (List.getElem?_eq_some_iff.mp hplace).1
  refine ⟨p.1, hplace, Nat.lt_of_le_of_lt ?_ (h.requests.overtakes before p after hfinished)⟩
  rw [← filterMap_range_getElem _ (Nat.le_of_lt hlt), List.filter_filterMap,
    List.length_filterMap_eq_countP, BufferUnordered.overtaken, ← List.countP_eq_length_filter]
  refine List.countP_mono_left fun earlier hearlier hlater => ?_
  -- Whoever is behind finished later, so its place is not among those that finished before.
  obtain ⟨signature, hsignature⟩ := Option.isSome_iff_exists.mp hlater
  rw [Option.filter_eq_some_iff, decide_eq_true_eq] at hsignature
  obtain ⟨later, hmem, rfl⟩ := List.mem_map.mp hsignature.2
  obtain ⟨q, hq, hsame⟩ := hback later hmem
  have hearlierLt : earlier < s.fetcher.sent.length :=
    Nat.lt_trans (List.mem_range.mp hearlier) hlt
  obtain rfl : earlier = q.1 :=
    (List.getElem?_inj hearlierLt hnodup).mp (hsignature.1.trans hsame.symm)
  have hfinishedNodup := h.requests.nodup
  rw [hfinished, List.map_append, List.map_cons] at hfinishedNodup
  have hbehind := (List.nodup_append.mp (List.nodup_append.mp hfinishedNodup).1).2.2
  refine decide_eq_true fun hbefore => ?_
  exact hbehind _ hbefore _ (List.mem_cons_of_mem _ (List.mem_map_of_mem hq)) rfl

theorem overtakes_few_twoTransactions :
    ∃ (s : State) (update : TransactionUpdate) (back : List TransactionUpdate) (place : Nat),
      s.updates = update :: back ∧ s.fetcher.sent[place]? = some update.signature ∧
      ((s.fetcher.sent.take place).filter fun signature =>
        signature ∈ back.map TransactionUpdate.signature).length < 5 := by
  obtain ⟨s, hs, -, -, -, hupdates, -⟩ := twoTransactions_run
  cases hsplit : s.updates with
  | nil => simp [hsplit] at hupdates
  | cons update back =>
    obtain ⟨place, hplace, hfew⟩ := overtakes_few twoSlots StartBlock.twoSlots rfl (by decide)
      twoTransactions s hs [] back update hsplit
    exact ⟨s, update, back, place, hsplit, hplace, hfew⟩

/-! ## Retries -/

/-- The place of the signature whose request an action lets fail. -/
def failedAnswer (s : State) : Action → Option Nat
  | .answer i none => s.requests.inFlight[i]?.map Prod.fst
  | .answer _ (some _) => none
  | .signatures _ => none
  | .sendSignature => none
  | .request => none
  | .sendTransaction => none
  | .process => none
  | .sendUpdate _ => none

/-- How often the requests for the signature at a place fail in a run. -/
def failures (crawler : Crawler) (place : Nat) : State → List Action → Nat
  | _, [] => 0
  | s, action :: actions =>
    (if failedAnswer s action = some place then 1 else 0) +
      (step crawler s action).elim 0 fun t => failures crawler place t actions

/-- The retries count the failures so far. -/
structure Retried (maxRetries : Nat) (count : Nat → Nat)
    (requests : BufferUnordered Nat (Option FetchedTransaction)) : Prop where
  inFlight : ∀ task ∈ requests.inFlight, count task.1 = task.2 ∧ task.2 ≤ maxRetries
  finished : ∀ p ∈ requests.finished,
    if p.2.isNone then count p.1 = maxRetries + 1 else count p.1 ≤ maxRetries
  untaken : ∀ place, requests.taken ≤ place → count place = 0

section Retries

variable {maxRetries limit i : Nat} {count : Nat → Nat}
  {requests requests' : BufferUnordered Nat (Option FetchedTransaction)} {task : Nat × Nat}

theorem Retried.take (h : Retried maxRetries count requests)
    (ht : requests.take limit 0 = some requests') : Retried maxRetries count requests' := by
  simp only [BufferUnordered.take, Option.ite_none_right_eq_some, Option.some.injEq] at ht
  obtain ⟨-, rfl⟩ := ht
  refine ⟨List.forall_mem_append.mpr ⟨h.inFlight, ?_⟩, h.finished,
    fun place hplace => h.untaken place (Nat.le_of_succ_le hplace)⟩
  exact List.forall_mem_singleton.mpr ⟨h.untaken _ (Nat.le_refl _), Nat.zero_le _⟩

theorem Retried.succeed (h : Retried maxRetries count requests)
    (htask : requests.inFlight[i]? = some task) (tx : FetchedTransaction) :
    Retried maxRetries count (requests.finish i (some tx)) := by
  rw [BufferUnordered.finish_of_some htask]
  have hcount := h.inFlight task (List.mem_of_getElem? htask)
  refine ⟨fun other hother => h.inFlight other (List.mem_of_mem_eraseIdx hother),
    List.forall_mem_append.mpr ⟨h.finished, ?_⟩, h.untaken⟩
  refine List.forall_mem_singleton.mpr ?_
  show count task.1 ≤ maxRetries
  omega

/-- A failure is counted for the task it is about, and for no other. -/
theorem Retried.fail (hsound : requests.Sound limit) (h : Retried maxRetries count requests)
    (htask : requests.inFlight[i]? = some task) :
    Retried maxRetries (fun place => count place + if some task.1 = some place then 1 else 0)
      (if maxRetries ≤ task.2 then requests.finish i none
        else requests.resume i (task.2 + 1)) := by
  have hcount := h.inFlight task (List.mem_of_getElem? htask)
  have hother : ∀ place, place ≠ task.1 →
      (count place + if some task.1 = some place then 1 else 0) = count place := by
    intro place hne
    rw [if_neg (fun heq => hne (Option.some.inj heq).symm), Nat.add_zero]
  have hthis : (count task.1 + if some task.1 = some task.1 then 1 else 0) = task.2 + 1 := by
    rw [if_pos rfl, hcount.1]
  have hrest : ∀ other ∈ requests.inFlight.eraseIdx i,
      (count other.1 + if some task.1 = some other.1 then 1 else 0) = other.2 ∧
        other.2 ≤ maxRetries := by
    intro other hmem
    rw [hother _ (hsound.place_ne htask hmem)]
    exact h.inFlight other (List.mem_of_mem_eraseIdx hmem)
  have hfinished : ∀ p ∈ requests.finished,
      if p.2.isNone then
        (count p.1 + if some task.1 = some p.1 then 1 else 0) = maxRetries + 1
      else (count p.1 + if some task.1 = some p.1 then 1 else 0) ≤ maxRetries := by
    intro p hp
    rw [hother _ (hsound.finished_ne htask hp)]
    exact h.finished p hp
  have huntaken : ∀ place, requests.taken ≤ place →
      (count place + if some task.1 = some place then 1 else 0) = 0 := by
    intro place hplace
    have hlt := hsound.place_lt htask
    rw [hother _ (by omega)]
    exact h.untaken place hplace
  by_cases hretries : maxRetries ≤ task.2
  · rw [if_pos hretries, BufferUnordered.finish_of_some htask]
    refine ⟨hrest, List.forall_mem_append.mpr ⟨hfinished, ?_⟩, huntaken⟩
    refine List.forall_mem_singleton.mpr ?_
    show (count task.1 + if some task.1 = some task.1 then 1 else 0) = maxRetries + 1
    omega
  · rw [if_neg hretries]
    refine ⟨fun other hmem => ?_, hfinished, huntaken⟩
    obtain rfl | hmem :=
      List.mem_cons.mp ((BufferUnordered.resume_perm htask (task.2 + 1)).mem_iff.mp hmem)
    · exact ⟨hthis, by omega⟩
    · exact hrest other hmem

theorem Retried.answer {transaction : Option FetchedTransaction} (hsound : s.Sound crawler)
    (h : Retried maxRetries count s.requests) (ht : answer maxRetries i transaction s = some t) :
    Retried maxRetries
      (fun place => count place +
        if failedAnswer s (.answer i transaction) = some place then 1 else 0) t.requests := by
  rw [Crawler.answer] at ht
  cases htask : s.requests.inFlight[i]? with
  | none => simp [htask] at ht
  | some task =>
    rw [htask] at ht
    cases transaction with
    | some tx =>
      simp only [Option.map_eq_some_iff] at ht
      obtain ⟨signature, -, rfl⟩ := ht
      exact h.succeed htask tx
    | none =>
      have hfail := h.fail hsound.requests htask
      rw [failedAnswer, htask, Option.map_some]
      by_cases hretries : maxRetries ≤ task.2
      · rw [if_pos hretries] at hfail
        simp only [if_pos hretries, Option.some.injEq] at ht
        subst ht
        exact hfail
      · rw [if_neg hretries] at hfail
        simp only [if_neg hretries, Option.some.injEq] at ht
        subst ht
        exact hfail

/-- What a step can do to the requests. -/
theorem step_requests {action : Action} (ht : step crawler s action = some t) :
    (t.requests = s.requests ∧ failedAnswer s action = none) ∨
      (action = .request ∧
        s.requests.take crawler.connectionConfig.maxConcurrentRequests 0 = some t.requests) ∨
      ∃ i transaction, action = .answer i transaction ∧
        answer crawler.connectionConfig.maxRetries i transaction s = some t := by
  cases action with
  | signatures action =>
    simp only [step, Option.ite_none_right_eq_some, Option.map_eq_some_iff] at ht
    obtain ⟨-, fetcher, -, rfl⟩ := ht
    exact .inl ⟨rfl, rfl⟩
  | request =>
    simp only [step, Option.ite_none_right_eq_some, Option.map_eq_some_iff] at ht
    obtain ⟨-, requests, hrequests, rfl⟩ := ht
    exact .inr (.inl ⟨rfl, hrequests⟩)
  | answer i transaction =>
    simp only [step, Option.ite_none_right_eq_some] at ht
    exact .inr (.inr ⟨i, transaction, rfl, ht.2⟩)
  | sendSignature => refine .inl ⟨?_, rfl⟩; unfold step at ht; grind
  | sendTransaction => refine .inl ⟨?_, rfl⟩; unfold step at ht; grind
  | process => refine .inl ⟨?_, rfl⟩; unfold step at ht; grind
  | sendUpdate hasRoom => refine .inl ⟨?_, rfl⟩; unfold step at ht; grind

theorem Retried.step {action : Action} (hsound : s.Sound crawler)
    (h : Retried crawler.connectionConfig.maxRetries count s.requests)
    (ht : step crawler s action = some t) :
    Retried crawler.connectionConfig.maxRetries
      (fun place => count place + if failedAnswer s action = some place then 1 else 0)
      t.requests := by
  obtain ⟨hsame, hnone⟩ | ⟨rfl, htake⟩ | ⟨i, transaction, rfl, hanswer⟩ := step_requests ht
  · rw [hsame, hnone]
    exact h
  · exact h.take htake
  · exact h.answer hsound hanswer

theorem Retried.of_run {actions : List Action} (hsound : s.Sound crawler)
    (h : Retried crawler.connectionConfig.maxRetries count s.requests)
    (hrun : run (Crawler.step crawler) s actions = some t) :
    Retried crawler.connectionConfig.maxRetries
      (fun place => count place + failures crawler place s actions) t.requests := by
  induction actions generalizing s count with
  | nil =>
    cases hrun
    exact h
  | cons action actions ih =>
    obtain ⟨u, hu, hrun⟩ := run_cons_eq_some.mp hrun
    have hrest := ih (hsound.step hu) (h.step hsound hu) hrun
    simp only [Nat.add_assoc] at hrest
    simp only [failures, hu, Option.elim_some]
    exact hrest

end Retries

/-- In every run the requests for a signature fail at most `max_retries + 1` times, and one
whose request has finished was given up exactly if they failed that often. -/
theorem given_up_iff (crawler : Crawler) (history : History) (actions : List Action) (s : State)
    (hrun : run (step crawler) (start crawler history) actions = some s) (place : Nat) :
    failures crawler place (start crawler history) actions ≤
        crawler.connectionConfig.maxRetries + 1 ∧
      ∀ result, (place, result) ∈ s.requests.finished →
        (result = none ↔ failures crawler place (start crawler history) actions =
          crawler.connectionConfig.maxRetries + 1) := by
  have hsound := sound_of_run hrun
  have hstart : Retried crawler.connectionConfig.maxRetries (fun _ => 0)
      (start crawler history).requests :=
    ⟨fun _ h => absurd h List.not_mem_nil, fun _ h => absurd h List.not_mem_nil, fun _ _ => rfl⟩
  have h := hstart.of_run (start_sound crawler history) hrun
  simp only [Nat.zero_add] at h
  constructor
  · by_cases htaken : s.requests.taken ≤ place
    · rw [h.untaken place htaken]
      exact Nat.zero_le _
    · have hmem := hsound.requests.account.symm.subset (List.mem_range.mpr (Nat.lt_of_not_le htaken))
      obtain hfinished | hinFlight := List.mem_append.mp hmem
      · obtain ⟨p, hp, rfl⟩ := List.mem_map.mp hfinished
        have hcount := h.finished p hp
        by_cases hnone : p.2.isNone = true
        · rw [if_pos hnone] at hcount
          omega
        · rw [if_neg hnone] at hcount
          omega
      · obtain ⟨task, htask, rfl⟩ := List.mem_map.mp hinFlight
        have hcount := h.inFlight task htask
        omega
  · intro result hresult
    have hcount := h.finished _ hresult
    cases result with
    | none => exact ⟨fun _ => hcount, fun _ => rfl⟩
    | some tx =>
      have hle : failures crawler place (start crawler history) actions ≤
        crawler.connectionConfig.maxRetries := hcount
      exact ⟨fun hnone => (Option.some_ne_none tx hnone).elim, fun heq => by omega⟩

/-- With one retry: both requests for the second signature fail, and for the first signature
the repeated one is answered. -/
def failingRequests : List Action :=
  let tx : FetchedTransaction := ⟨none, none, 4⟩
  [.signatures (.fetch 2), .sendSignature, .sendSignature, .request, .request, .answer 1 none,
    .answer 1 none, .answer 0 none, .answer 0 (some tx)]

def retryingOnce : Crawler :=
  { twoSlots with connectionConfig := { twoSlots.connectionConfig with maxRetries := 1 } }

theorem failingRequests_run :
    ∃ s, run (step retryingOnce) (start retryingOnce StartBlock.twoSlots) failingRequests =
        some s ∧ s.requests.finished.map (fun p => (p.1, p.2.isNone)) = [(1, true), (0, false)] := by
  have h : (run (step retryingOnce) (start retryingOnce StartBlock.twoSlots) failingRequests).any
      (fun s => s.requests.finished.map (fun p => (p.1, p.2.isNone)) =
        [(1, true), (0, false)]) := by
    decide +kernel
  obtain ⟨s, hs, h⟩ := (Option.any_eq_true ..).mp h
  exact ⟨s, hs, of_decide_eq_true h⟩

theorem given_up_iff_failingRequests :
    failures retryingOnce 1 (start retryingOnce StartBlock.twoSlots) failingRequests = 2 ∧
      failures retryingOnce 0 (start retryingOnce StartBlock.twoSlots) failingRequests ≤ 2 ∧
      failures retryingOnce 0 (start retryingOnce StartBlock.twoSlots) failingRequests ≠ 2 := by
  obtain ⟨s, hs, hfinished⟩ := failingRequests_run
  have hiff := given_up_iff retryingOnce StartBlock.twoSlots failingRequests s hs
  have hresult : ∀ place isNone, (place, isNone) ∈ [(1, true), (0, false)] →
      ∃ result : Option FetchedTransaction, (place, result) ∈ s.requests.finished ∧
        result.isNone = isNone := by
    intro place isNone hmem
    rw [← hfinished] at hmem
    obtain ⟨p, hp, heq⟩ := List.mem_map.mp hmem
    cases heq
    exact ⟨p.2, hp, rfl⟩
  obtain ⟨givenUp, hgivenUp, hnone⟩ := hresult 1 true (by decide)
  obtain ⟨answered, hanswered, hsome⟩ := hresult 0 false (by decide)
  refine ⟨((hiff 1).2 givenUp hgivenUp).mp (Option.isNone_iff_eq_none.mp hnone), (hiff 0).1,
    fun hfailures => ?_⟩
  rw [((hiff 0).2 answered hanswered).mpr hfailures] at hsome
  cases hsome

end Crawler

end OmnipairIndexer
