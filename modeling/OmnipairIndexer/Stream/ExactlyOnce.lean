/-
How many messages a streamed swap becomes.

Every `UPDATE` notification that reaches the listener is emitted, and each of the
`k` updates of a transaction notifies each of its rows that is in the table.  The
first row is there for all of them, so it is streamed `k` times.  The invariant
counts, for that row, the messages sent, its notifications on the way to the
listener and the enrichments that are not over: together they are as many as the
transaction has rows.
-/
import OmnipairIndexer.Stream.Knowledge

namespace OmnipairIndexer

namespace Stream

open Transition

section

variable {N : Type}

/-- The ids of the rows of a transaction, in the order of their insertion. -/
def idsOf (s : System N) (txSig : String) : List Nat :=
  (s.table.rowsOf txSig).map Swap.id

/-- The ids in the messages of a transaction that were sent to the clients. -/
def messagesOf (s : System N) (txSig : String) : List String :=
  (s.listener.emitted.filter fun swap => swap.txSig = txSig).map DbListener.SwapsUpdate.id

/-- One message for each row of the transaction. -/
def ExactlyOnce (s : System N) (txSig : String) : Prop :=
  (messagesOf s txSig).Perm ((idsOf s txSig).map toString)

/-- No enrichment of the transaction is open, and none of its notifications waits
for the listener. -/
def Complete (s : System N) (txSig : String) : Prop :=
  s.enricher.outstanding txSig = 0 ∧ ∀ payload ∈ s.listenerQueue, payload.txSig ≠ txSig

/-- The enricher's updates succeed, no swap is held for the timeout, and no other
process updates swaps. -/
def Undisturbed (settings : Settings) (s : System N) : Action N → Prop
  | .startBackfill _ _ _ => False
  | .enricher action => Enricher.Completes action
  | .tick now _ => DbListener.timedOut settings.dedupTimeout now s.listener = []
  | _ => True

instance (settings : Settings) (s : System N) :
    (action : Action N) → Decidable (Undisturbed settings s action)
  | .startBackfill _ _ _ => .isFalse id
  | .enricher action => inferInstanceAs (Decidable (Enricher.Completes action))
  | .tick now _ => inferInstanceAs
      (Decidable (DbListener.timedOut settings.dedupTimeout now s.listener = []))
  | .insertSwap _ | .insertPool _ _ | .backfill _ | .notification _ => .isTrue trivial

/-! ## Ids -/

theorem mem_idsOf {s : System N} {txSig : String} {id : Nat} :
    id ∈ idsOf s txSig ↔ ∃ row ∈ s.table.rows, row.txSig = txSig ∧ row.id = id := by
  simp only [idsOf, SwapTable.rowsOf, List.mem_map, List.mem_filter, decide_eq_true_eq, and_assoc]

theorem idsOf_nodup (s : System N) (txSig : String) : (idsOf s txSig).Nodup :=
  s.table.id_nodup.sublist (List.filter_sublist.map _)

theorem txSig_of_mem_idsOf {s : System N} {txSig : String} {row : Swap} (hrow : row ∈ s.table.rows)
    (hid : row.id ∈ idsOf s txSig) : row.txSig = txSig := by
  obtain ⟨row', hrow', hsig, hid'⟩ := mem_idsOf.mp hid
  rw [s.table.eq_of_id_eq hrow hrow' hid'.symm, hsig]

theorem count_idsOf {s : System N} {txSig sig : String} {id : Nat} (hid : id ∈ idsOf s txSig) :
    (idsOf s sig).count id = if sig = txSig then 1 else 0 := by
  split
  · rename_i hsig
    exact List.count_eq_one_of_mem (idsOf_nodup s sig) (hsig ▸ hid)
  · rename_i hsig
    refine List.count_eq_zero.mpr fun hother => hsig ?_
    obtain ⟨row, hrow, hrowSig, rfl⟩ := mem_idsOf.mp hother
    exact hrowSig.symm.trans (txSig_of_mem_idsOf hrow hid)

/-! ## The invariant -/

/-- The messages sent about a row. -/
def sent (s : System N) (id : Nat) : Nat :=
  s.listener.emitted.countP fun swap => swap.id = toString id

/-- The notifications on the way to the listener that a row was updated. -/
def inFlight (s : System N) (id : Nat) : Nat :=
  s.listenerQueue.countP fun payload => payload.op = "UPDATE" ∧ payload.id = toString id

/-- A message or notification with this id and signature is about a row. -/
def Names (s : System N) (id txSig : String) : Prop :=
  ∃ row ∈ s.table.rows, toString row.id = id ∧ row.txSig = txSig

structure Counted (txSig : String) (s : System N) : Prop where
  idle : s.backfill = none
  emitted : ∀ swap ∈ s.listener.emitted, Names s swap.id swap.txSig
  queued : ∀ payload ∈ s.listenerQueue, Names s payload.id payload.txSig ∧
    (payload.op = "INSERT" ∨ payload.op = "UPDATE")
  none : idsOf s txSig = [] → s.enricher.outstanding txSig = 0
  first : ∀ id, (idsOf s txSig).head? = some id →
    sent s id + inFlight s id + s.enricher.outstanding txSig = (idsOf s txSig).length

theorem Counted.start (txSig : String) (pools : String → Option PoolInfo) :
    Counted txSig (System.start pools : System N) where
  idle := rfl
  emitted _ h := nomatch h
  queued _ h := nomatch h
  none _ := rfl
  first _ h := nomatch h

theorem Counted.fresh {txSig : String} {s : System N} (h : Counted txSig s) {id : Nat}
    (hid : ∀ row ∈ s.table.rows, row.id ≠ id) : sent s id = 0 ∧ inFlight s id = 0 := by
  constructor
  · refine List.countP_eq_zero.mpr fun swap hswap heq => ?_
    obtain ⟨row, hrow, hrowId, -⟩ := h.emitted swap hswap
    exact hid row hrow (toString_injective (hrowId.trans (of_decide_eq_true heq)))
  · refine List.countP_eq_zero.mpr fun payload hpayload heq => ?_
    obtain ⟨⟨row, hrow, hrowId, -⟩, -⟩ := h.queued payload hpayload
    exact hid row hrow (toString_injective (hrowId.trans (of_decide_eq_true heq).2))

/-- A step that leaves rows, messages, notifications and open work alone. -/
theorem Counted.congr {txSig : String} {s t : System N} (h : Counted txSig s)
    (hidle : t.backfill = s.backfill) (htable : t.table = s.table)
    (hemitted : t.listener.emitted = s.listener.emitted)
    (hqueue : t.listenerQueue = s.listenerQueue)
    (hout : t.enricher.outstanding txSig = s.enricher.outstanding txSig) : Counted txSig t := by
  obtain ⟨h₁, h₂, h₃, h₄, h₅⟩ := h
  refine ⟨hidle ▸ h₁, ?_, ?_, ?_, ?_⟩
  · simpa only [Names, htable, hemitted] using h₂
  · simpa only [Names, htable, hqueue] using h₃
  · simpa only [idsOf, htable, hout] using h₄
  · simpa only [idsOf, sent, inFlight, htable, hemitted, hqueue, hout] using h₅

theorem idsOf_execute {s t : System N} {u : VolumeUpdate} (h : execute s (some u) = some t)
    (txSig : String) : idsOf t txSig = idsOf s txSig := by
  obtain ⟨-, rfl⟩ := execute_some h
  simp only [idsOf, notify, SwapTable.rowsOf_withVolume, List.map_map]
  exact List.map_congr_left fun row _ => SwapTable.setVolume_id u.volumeUsd u.txSig row

/-- An update puts one notification on the way for each row of its transaction. -/
theorem inFlight_execute {s t : System N} {u : VolumeUpdate} {txSig : String} {id : Nat}
    (hid : id ∈ idsOf s txSig) (h : execute s (some u) = some t) :
    inFlight t id = inFlight s id + if u.txSig = txSig then 1 else 0 := by
  have hids := idsOf_execute h u.txSig
  obtain ⟨horder, rfl⟩ := execute_some h
  rw [← count_idsOf hid, ← hids]
  simp only [inFlight, notify, List.countP_append, List.countP_map]
  congr 1
  calc u.order.countP _
      = (u.order.map Swap.id).countP (· == id) := by
        rw [List.countP_map]
        refine List.countP_congr fun row _ => ?_
        simp only [Function.comp, notifySwapUpdated, true_and, decide_eq_true_eq, beq_iff_eq,
          toString_injective.eq_iff]
    _ = _ := (horder.map Swap.id).countP_eq _

end

section

variable {N : Type} [JsNumber N] {settings : Settings} {s t : System N} {action : Action N}
  {txSig : String}

theorem idsOf_insertSwap {cols : SwapColumns} (hstep : step settings s (.insertSwap cols) = some t)
    (txSig : String) :
    idsOf t txSig = idsOf s txSig ++ if cols.txSig = txSig then [s.table.nextId] else [] := by
  have hrows : t.table.rows = s.table.rows ++ [s.table.newRow cols] := by
    rw [step_insertSwap hstep]
    rfl
  have hnew : (s.table.newRow cols).txSig = cols.txSig := rfl
  rw [idsOf, SwapTable.rowsOf, hrows, List.filter_append, List.map_append, List.filter_singleton,
    hnew]
  congr 1
  by_cases hsig : cols.txSig = txSig
  · simp [hsig, SwapTable.newRow]
  · simp [hsig]

theorem Counted.insertSwap {cols : SwapColumns} (h : Counted txSig s)
    (hstep : step settings s (.insertSwap cols) = some t) : Counted txSig t := by
  have hout := outstanding_insertSwap hstep txSig
  have ht := step_insertSwap hstep
  have hrows : t.table.rows = s.table.rows ++ [s.table.newRow cols] := by rw [ht]; rfl
  have hnames : ∀ id sig, Names s id sig → Names t id sig := by
    rintro id sig ⟨row, hrow, hid, hsig⟩
    exact ⟨row, hrows ▸ List.mem_append_left _ hrow, hid, hsig⟩
  have hids := idsOf_insertSwap hstep txSig
  have hcounts : ∀ id, sent t id = sent s id ∧ inFlight t id = inFlight s id := by
    intro id
    rw [ht]
    simp [sent, inFlight, notify, notifySwapUpdated]
  constructor
  · rw [ht]
    exact h.idle
  · rw [ht]
    exact fun swap hswap => ht ▸ hnames _ _ (h.emitted swap hswap)
  · intro payload hpayload
    rw [ht] at hpayload
    rcases List.mem_append.mp hpayload with hpayload | hpayload
    · exact (h.queued payload hpayload).imp_left (hnames _ _)
    · rw [List.mem_singleton.mp hpayload]
      exact ⟨⟨_, hrows ▸ List.mem_append_right _ (List.mem_singleton_self _), rfl, rfl⟩,
        Or.inl rfl⟩
  · intro hnone
    rw [hids, List.append_eq_nil_iff] at hnone
    rw [hout, h.none hnone.1]
    by_cases hsig : cols.txSig = txSig
    · simp [hsig] at hnone
    · rw [if_neg hsig]
  · intro id hhead
    rw [(hcounts id).1, (hcounts id).2, hout, hids]
    rw [hids, List.head?_append] at hhead
    cases hold : (idsOf s txSig).head? with
    | some first =>
      rw [hold, Option.some_or] at hhead
      have := h.first id (hold.trans hhead)
      rw [List.length_append, ← this]
      split
      · simp only [List.length_singleton]
        omega
      · simp only [List.length_nil]
        omega
    | none =>
      rw [List.head?_eq_none_iff] at hold
      rw [hold, List.head?_nil, Option.none_or] at hhead
      by_cases hsig : cols.txSig = txSig
      · rw [if_pos hsig] at hhead
        cases hhead
        obtain ⟨hsent, hflight⟩ := h.fresh fun row hrow => (s.table.id_lt row hrow).ne
        simp [hsig, hold, hsent, hflight, h.none hold]
      · simp [hsig] at hhead

omit [JsNumber N] in
theorem Counted.execute {e : Enricher N} {u : VolumeUpdate} (h : Counted txSig s)
    (hout : s.enricher.outstanding txSig =
      e.outstanding txSig + if u.txSig = txSig then 1 else 0)
    (hexec : execute { s with enricher := e } (some u) = some t) : Counted txSig t := by
  have hopen : t.enricher.outstanding txSig = e.outstanding txSig :=
    outstanding_execute hexec txSig
  have hids : idsOf t txSig = idsOf s txSig := idsOf_execute hexec txSig
  have hflight : ∀ id ∈ idsOf s txSig,
      inFlight t id = inFlight s id + if u.txSig = txSig then 1 else 0 := fun id hid =>
    inFlight_execute (s := { s with enricher := e }) hid hexec
  obtain ⟨-, hbackfill, hlistener, -⟩ := execute_frame hexec
  obtain ⟨horder, ht⟩ := execute_some hexec
  have hrows : t.table.rows = s.table.rows.map (SwapTable.setVolume u.volumeUsd u.txSig) := by
    rw [ht]
    rfl
  have hnames : ∀ id sig, Names s id sig → Names t id sig := by
    rintro id sig ⟨row, hrow, hid, hsig⟩
    exact ⟨_, hrows ▸ List.mem_map_of_mem hrow, by rwa [SwapTable.setVolume_id],
      by rwa [SwapTable.setVolume_toSwapColumns]⟩
  constructor
  · exact hbackfill.trans h.idle
  · rw [hlistener]
    exact fun swap hswap => hnames _ _ (h.emitted swap hswap)
  · intro payload hpayload
    rw [ht] at hpayload
    rcases List.mem_append.mp hpayload with hpayload | hpayload
    · exact (h.queued payload hpayload).imp_left (hnames _ _)
    · obtain ⟨row, hrow, rfl⟩ := List.mem_map.mp hpayload
      have hrow' := (List.mem_filter.mp (horder.mem_iff.mp hrow)).1
      exact ⟨⟨row, hrows ▸ hrow', rfl, rfl⟩, Or.inr rfl⟩
  · intro hnone
    have := h.none (hids.symm.trans hnone)
    omega
  · intro id hhead
    rw [hids] at hhead ⊢
    have hfirst := h.first id hhead
    have hsent : sent t id = sent s id := by rw [sent, hlistener, sent]
    rw [hsent, hflight id (List.mem_of_mem_head? hhead), hopen]
    omega

theorem Counted.notification {now : Nat} (h : Counted txSig s)
    (hstep : step settings s (.notification now) = some t) : Counted txSig t := by
  obtain ⟨payload, queue, hqueue, rfl⟩ := step_notification hstep
  obtain ⟨hname, hop⟩ := h.queued payload (hqueue ▸ List.mem_cons_self)
  have hrest := fun p (hp : p ∈ queue) => h.queued p (hqueue ▸ List.mem_cons_of_mem _ hp)
  have hparsed : payload.parsed.op = payload.op := rfl
  rcases hop with hop | hop
  · have hinsert : DbListener.toUppercase payload.parsed.op = "INSERT" := by
      rw [hparsed, hop]
      decide
    rw [DbListener.handle, if_pos hinsert]
    refine ⟨h.idle, h.emitted, hrest, h.none, fun id hhead => ?_⟩
    have hfirst := h.first id hhead
    have hinsertOp : ¬ ("INSERT" = "UPDATE" ∧ payload.id = toString id) := fun heq =>
      absurd heq.1 (by decide)
    simp only [inFlight, hqueue, List.countP_cons, hop, decide_eq_true_eq, if_neg hinsertOp,
      Nat.add_zero] at hfirst
    exact hfirst
  · have hupdate : DbListener.toUppercase payload.parsed.op ≠ "INSERT" := by
      rw [hparsed, hop]
      decide
    rw [DbListener.handle, if_neg hupdate]
    refine ⟨h.idle, fun swap hswap => ?_, hrest, h.none, fun id hhead => ?_⟩
    · rcases List.mem_append.mp hswap with hswap | hswap
      · exact h.emitted swap hswap
      · rw [List.mem_singleton.mp hswap]
        exact hname
    · refine Eq.trans ?_ (h.first id hhead)
      have hid : payload.parsed.swap.withPrice.id = payload.id := rfl
      simp only [sent, inFlight, hqueue, DbListener.emitSwap, List.countP_append, List.countP_cons,
        List.countP_nil, hop, hid, true_and, decide_eq_true_eq]
      omega

theorem Counted.step (h : Counted txSig s) (hundisturbed : Undisturbed settings s action)
    (hstep : step settings s action = some t) : Counted txSig t := by
  cases action with
  | insertSwap cols => exact h.insertSwap hstep
  | insertPool pair poolInfo =>
    obtain ⟨-, rfl⟩ := step_insertPool hstep
    exact h.congr rfl rfl rfl rfl rfl
  | enricher act =>
    obtain ⟨e, update, henricher, hexec⟩ := step_enricher hstep
    have hout := Enricher.outstanding_step hundisturbed henricher txSig
    cases update with
    | none =>
      cases hexec
      exact h.congr rfl rfl rfl rfl hout.symm
    | some u =>
      refine h.execute ?_ hexec
      rw [hout, Option.toList_some, List.countP_singleton]
      simp only [decide_eq_true_eq]
  | startBackfill pairFilter maxLimit batchSize => exact hundisturbed.elim
  | backfill act =>
    obtain ⟨old, _, _, hold, -, -⟩ := step_backfill hstep
    cases h.idle.symm.trans hold
  | notification now => exact h.notification hstep
  | tick now timedOut =>
    obtain ⟨horder, rfl⟩ := step_tick hstep
    rw [show DbListener.timedOut settings.dedupTimeout now s.listener = [] from hundisturbed,
      List.perm_nil] at horder
    subst horder
    exact h.congr rfl rfl rfl rfl rfl

/-! ## Messages -/

omit [JsNumber N] in
theorem Counted.count_messagesOf (h : Counted txSig s) {id : Nat} (hid : id ∈ idsOf s txSig) :
    (messagesOf s txSig).count (toString id) = sent s id := by
  rw [messagesOf, List.count, List.countP_map, List.countP_filter, sent]
  refine List.countP_congr fun swap hswap => ?_
  simp only [Function.comp, Bool.and_eq_true, beq_iff_eq, decide_eq_true_eq, and_iff_left_iff_imp]
  intro hswapId
  obtain ⟨row, hrow, hrowId, hsig⟩ := h.emitted swap hswap
  rw [← hsig]
  refine txSig_of_mem_idsOf hrow ?_
  rwa [toString_injective (hrowId.trans hswapId)]

/-- For every number of swaps in a transaction and every interleaving in which the
enrichments complete in time and nothing else writes: the clients get exactly one
message for each row exactly when the transaction has a single swap. -/
theorem exactly_once_iff (settings : Settings) (pools : String → Option PoolInfo)
    (actions : List (Action N)) (s : System N) (txSig : String)
    (hrun : run (Stream.step settings) (System.start pools) actions = some s)
    (hundisturbed :
      Along (Stream.step settings) (Undisturbed settings) (System.start pools) actions)
    (hinserted : s.table.rowsOf txSig ≠ []) (hcomplete : Complete s txSig) :
    ExactlyOnce s txSig ↔ (s.table.rowsOf txSig).length = 1 := by
  have hcounted : Counted txSig s :=
    run_invariant (fun _ _ _ => Counted.step) (Counted.start txSig pools) hundisturbed hrun
  obtain ⟨first, rest, hids⟩ : ∃ first rest, idsOf s txSig = first :: rest := by
    refine List.exists_cons_of_ne_nil fun hnil => hinserted ?_
    exact List.map_eq_nil_iff.mp hnil
  have hmem : first ∈ idsOf s txSig := hids ▸ List.mem_cons_self
  have hlength : (idsOf s txSig).length = (s.table.rowsOf txSig).length := List.length_map _
  have hflight : inFlight s first = 0 := by
    refine List.countP_eq_zero.mpr fun payload hpayload heq => ?_
    obtain ⟨⟨row, hrow, hrowId, hsig⟩, -⟩ := hcounted.queued payload hpayload
    refine hcomplete.2 payload hpayload (hsig.symm.trans (txSig_of_mem_idsOf hrow ?_))
    rwa [toString_injective (hrowId.trans (of_decide_eq_true heq).2)]
  have hsent : sent s first = (s.table.rowsOf txSig).length := by
    have := hcounted.first first (by rw [hids, List.head?_cons])
    rw [hflight, hcomplete.1, hlength] at this
    omega
  have hcount := hcounted.count_messagesOf hmem
  constructor
  · intro honce
    rw [← hsent, ← hcount, honce.count_eq]
    exact List.count_eq_one_of_mem
      (List.Nodup.map toString_injective (idsOf_nodup s txSig)) (List.mem_map_of_mem hmem)
  · intro hone
    have hrest : rest = [] := by
      rw [← hlength, hids, List.length_cons] at hone
      exact List.length_eq_zero_iff.mp (by omega)
    subst hrest
    -- Every message of the transaction is about its only row, and there is one.
    have hall : ∀ id ∈ messagesOf s txSig, id = toString first := by
      intro id hid
      obtain ⟨swap, hswap, rfl⟩ := List.mem_map.mp hid
      obtain ⟨hswap, hsig⟩ := List.mem_filter.mp hswap
      obtain ⟨row, hrow, hrowId, hrowSig⟩ := hcounted.emitted swap hswap
      have hrowMem : row.id ∈ idsOf s txSig :=
        mem_idsOf.mpr ⟨row, hrow, hrowSig.trans (of_decide_eq_true hsig), rfl⟩
      rw [hids, List.mem_singleton] at hrowMem
      rw [← hrowId, hrowMem]
    rw [ExactlyOnce, hids, List.eq_replicate_of_mem hall, List.map_singleton]
    have hcountAll : (messagesOf s txSig).length = 1 := by
      rw [← hone, ← hsent, ← hcount, List.count_eq_length.mpr fun id hid => (hall id hid).symm]
    rw [hcountAll]
    exact List.Perm.refl _

end

/-! ## Two swaps, four messages -/

/-- `enrichedInTurn`, and the listener handles all six notifications at once. -/
def streamedInTurn : List (Action ℚ) :=
  enrichedInTurn ++ List.replicate 6 (.notification 0)

def streamedState : System ℚ :=
  (run (step defaults) (System.start onePool) streamedInTurn).get (by decide +kernel)

theorem streamedInTurn_runs :
    run (step defaults) (System.start onePool) streamedInTurn = some streamedState :=
  (Option.some_get _).symm

theorem streamedInTurn_undisturbed :
    Along (step defaults) (Undisturbed defaults) (System.start onePool) streamedInTurn := by
  decide +kernel

theorem streamedState_complete : Complete streamedState "tx" := by
  unfold Complete
  decide +kernel

theorem exactly_once_iff_streamedInTurn :
    ExactlyOnce streamedState "tx" ↔ (streamedState.table.rowsOf "tx").length = 1 :=
  exactly_once_iff defaults onePool streamedInTurn streamedState "tx" streamedInTurn_runs
    streamedInTurn_undisturbed (by decide +kernel) streamedState_complete

/-- Each of the two rows is streamed twice. -/
theorem rows_streamed_twice :
    run (step defaults) (System.start onePool) streamedInTurn = some streamedState ∧
      Along (step defaults) (Undisturbed defaults) (System.start onePool) streamedInTurn ∧
      Complete streamedState "tx" ∧ messagesOf streamedState "tx" = ["1", "2", "1", "2"] ∧
      ¬ ExactlyOnce streamedState "tx" := by
  refine ⟨streamedInTurn_runs, streamedInTurn_undisturbed, streamedState_complete,
    by decide +kernel, fun h => ?_⟩
  exact absurd h.length_eq (by decide +kernel)

end Stream

end OmnipairIndexer
