/-
Evidence along a run of the whole system.

`Knows` collects what both scripts have in memory, and `Knows.step` says that it
keeps counting as long as what each step brings in counts.
-/
import OmnipairIndexer.Stream.Evidence

namespace OmnipairIndexer

namespace Stream

open JsNumber

variable {N : Type} {s t : System N} {update : Option VolumeUpdate}

def System.HasTrade (s : System N) (trade : Trade) : Prop :=
  ∃ row ∈ s.table.rows, row.toTrade = trade

theorem System.hasTrade_of_mem {row : Swap} (h : row ∈ s.table.rows) : s.HasTrade row.toTrade :=
  ⟨row, h, rfl⟩

/-! ## What running an update does -/

/-- Running an update changes volumes and the queues, and nothing else. -/
theorem execute_frame (h : execute s update = some t) :
    t.pools = s.pools ∧ t.backfill = s.backfill ∧ t.listener = s.listener ∧
      ∀ trade, t.HasTrade trade ↔ s.HasTrade trade := by
  cases update with
  | none =>
    cases h
    exact ⟨rfl, rfl, rfl, fun _ => Iff.rfl⟩
  | some u =>
    obtain ⟨-, rfl⟩ := execute_some h
    refine ⟨rfl, rfl, rfl, fun trade => ?_⟩
    simp only [System.HasTrade, notify, SwapTable.mem_withVolume]
    constructor
    · rintro ⟨_, ⟨row, hrow, rfl⟩, htrade⟩
      exact ⟨row, hrow, by rwa [SwapTable.setVolume_toSwapColumns] at htrade⟩
    · rintro ⟨row, hrow, htrade⟩
      exact ⟨_, ⟨row, hrow, rfl⟩, by rwa [SwapTable.setVolume_toSwapColumns]⟩

/-- The notifications of an update tell the enricher nothing to do. -/
theorem outstanding_execute (h : execute s update = some t) (txSig : String) :
    t.enricher.outstanding txSig = s.enricher.outstanding txSig := by
  cases update with
  | none =>
    cases h
    rfl
  | some u =>
    obtain ⟨-, rfl⟩ := execute_some h
    have hnone : (u.order.map (notifySwapUpdated "UPDATE")).countP (fun notification =>
        Enricher.accepts notification && decide (notification.txSig = txSig)) = 0 := by
      rw [List.countP_eq_zero]
      intro payload hpayload
      obtain ⟨row, -, rfl⟩ := List.mem_map.mp hpayload
      simp [Enricher.accepts_update]
    simp only [notify, Enricher.outstanding, List.countP_append, hnone, Nat.add_zero]

variable [JsNumber N] {E : Evidence N} {settings : Settings} {action : Action N}

theorem outstanding_insertSwap {cols : SwapColumns}
    (h : step settings s (.insertSwap cols) = some t) (txSig : String) :
    t.enricher.outstanding txSig =
      s.enricher.outstanding txSig + if cols.txSig = txSig then 1 else 0 := by
  have hacc := Enricher.accepts_insert (s.table.newRow cols) rfl
  have hsig : (notifySwapUpdated "INSERT" (s.table.newRow cols)).txSig = cols.txSig := rfl
  simp only [step_insertSwap h, notify, Enricher.outstanding, List.countP_append,
    List.countP_singleton, hacc, hsig, Bool.true_and, decide_eq_true_eq]
  omega

/-! ## Steps that count -/

/-- What the memory of both scripts holds counts. -/
structure Knows (E : Evidence N) (s : System N) : Prop where
  enricher : E.EnricherKnows s.pools s.HasTrade s.enricher
  backfill : ∀ b, s.backfill = some b → E.BackfillKnows s.pools s.HasTrade b

/-- What a step brings in counts and is enough. -/
def GoodStep (E : Evidence N) (settings : Settings) (s : System N) : Action N → Prop
  | .enricher action => E.GoodEnricher s.pools settings.priceCacheTtl s.enricher action
  | .backfill action => ∀ b, s.backfill = some b → E.GoodBackfill b action
  | _ => True

namespace Knows

theorem start (pools : String → Option PoolInfo) : Knows E (System.start pools) where
  enricher := .start
  backfill _ h := nomatch h

/-- More pools and trades, and more notifications about trades of the table. -/
theorem grow (h : Knows E s)
    (hpools : ∀ pair poolInfo, s.pools pair = some poolInfo → t.pools pair = some poolInfo)
    (htrade : ∀ trade, s.HasTrade trade → t.HasTrade trade) {payloads : List SwapPayload}
    (hpayloads : ∀ payload ∈ payloads, t.HasTrade payload.toTrade)
    (henricher : t.enricher = { s.enricher with queue := s.enricher.queue ++ payloads })
    (hbackfill : t.backfill = s.backfill) : Knows E t where
  enricher := by
    rw [henricher]
    exact (h.enricher.mono ⟨fun _ _ => id, fun _ _ _ => id, hpools⟩ htrade).enqueue hpayloads
  backfill b hb :=
    (h.backfill b (hbackfill ▸ hb)).mono ⟨fun _ _ => id, fun _ _ _ => id, hpools⟩ htrade

theorem execute (h : Knows E s) (hexec : execute s update = some t) : Knows E t := by
  obtain ⟨hpools, hbackfill, -, htrade⟩ := execute_frame hexec
  cases update with
  | none =>
    cases hexec
    exact h
  | some u =>
    obtain ⟨horder, rfl⟩ := execute_some hexec
    refine h.grow (fun _ _ => id) (fun trade => (htrade trade).mpr) ?_ rfl hbackfill
    intro payload hpayload
    obtain ⟨row, hrow, rfl⟩ := List.mem_map.mp hpayload
    exact System.hasTrade_of_mem (List.mem_filter.mp (horder.mem_iff.mp hrow)).1

theorem step (h : Knows E s) (hgood : GoodStep E settings s action)
    (hstep : step settings s action = some t) : Knows E t := by
  cases action with
  | insertSwap cols =>
    have ht := step_insertSwap hstep
    subst ht
    refine h.grow (fun _ _ => id) (fun trade => ?_) (fun payload hpayload => ?_) rfl rfl
    · rintro ⟨row, hrow, htrade⟩
      exact ⟨row, List.mem_append_left _ hrow, htrade⟩
    · rw [List.mem_singleton] at hpayload
      subst hpayload
      exact System.hasTrade_of_mem (List.mem_append_right _ (List.mem_singleton_self _))
  | insertPool pair poolInfo =>
    obtain ⟨hnone, rfl⟩ := step_insertPool hstep
    refine h.grow (fun p info hinfo => ?_) (fun _ => id)
      (fun payload (hpayload : payload ∈ []) => nomatch hpayload) (by simp) rfl
    rw [← hinfo]
    refine Function.update_of_ne ?_ _ _
    rintro rfl
    cases hnone.symm.trans hinfo
  | enricher act =>
    obtain ⟨e, u, henricher, hexec⟩ := step_enricher hstep
    have hknows : Knows E { s with enricher := e } :=
      ⟨(h.enricher.step hgood henricher).1, h.backfill⟩
    exact hknows.execute hexec
  | startBackfill pairFilter maxLimit batchSize =>
    have ht := step_startBackfill hstep
    subst ht
    refine ⟨h.enricher, fun b hb => ?_⟩
    cases hb
    exact .start pairFilter maxLimit batchSize
  | backfill act =>
    obtain ⟨old, b, u, hold, hbackfill, hexec⟩ := step_backfill hstep
    have hb := ((h.backfill old hold).step (fun _ => System.hasTrade_of_mem) (hgood old hold)
      hbackfill).1
    have hknows : Knows E { s with backfill := some b } :=
      ⟨h.enricher, fun b' hb' => Option.some.inj hb' ▸ hb⟩
    exact hknows.execute hexec
  | notification now =>
    obtain ⟨payload, queue, -, rfl⟩ := step_notification hstep
    exact ⟨h.enricher, h.backfill⟩
  | tick now timedOut =>
    obtain ⟨-, rfl⟩ := step_tick hstep
    exact ⟨h.enricher, h.backfill⟩

end Knows

end Stream

end OmnipairIndexer
