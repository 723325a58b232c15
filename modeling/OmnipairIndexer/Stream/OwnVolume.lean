/-
Whether the volume of a row is its own.

Prices are fixed, every pool is known and every query succeeds.  Both scripts
update by transaction signature, so whichever swap of a transaction is enriched
last gives its value to all of them.  Two facts carry the result through every
interleaving: rows of one transaction never hold different volumes, and a row
without a volume has an enrichment under way.
-/
import OmnipairIndexer.Stream.Knowledge

namespace OmnipairIndexer

namespace Stream

open JsNumber Transition

section

variable {N : Type} [JsNumber N]

/-- The value of a trade in its pool at given prices, as it is stored. -/
def ownVolume (prices : Prices N) (pools : String → Option PoolInfo) (trade : Trade) :
    Option String :=
  (pools trade.pair).map fun poolInfo => text (trade.computeVolumeUsd prices poolInfo)

def EveryOwn (prices : Prices N) (s : System N) : Prop :=
  ∀ row ∈ s.table.rows, row.volumeUsd = ownVolume prices s.pools row.toTrade

def SameValues (prices : Prices N) (s : System N) : Prop :=
  ∀ row ∈ s.table.rows, ∀ row' ∈ s.table.rows, row.txSig = row'.txSig →
    ownVolume prices s.pools row.toTrade = ownVolume prices s.pools row'.toTrade

omit [JsNumber N] in
/-- No row waits for its enrichment. -/
def AllHandled (s : System N) : Prop :=
  ∀ row ∈ s.table.rows, s.enricher.outstanding row.txSig = 0

def AnswersWith (prices : Prices N) (data : Option (PriceResponse N)) : Stage N → Prop
  | .fetching _ _ uncachedMints =>
    match data with
    | some data => ∀ mint ∈ uncachedMints, data.tokenPrice mint = prices mint
    | none => False
  | _ => True

/-- What a handler is resumed with, when prices are fixed and nothing fails. -/
def FixedResume (prices : Prices N) (stage : Stage N) : HandlerAction N → Prop
  | .poolQuery succeeds => succeeds = true
  | .readPrices _ => True
  | .response _ data => AnswersWith prices data stage
  | .update order => order.isSome = true

/-- Prices are fixed, pools are known when a swap is inserted, and no query of the
enricher fails. -/
def FixedPrices (prices : Prices N) (s : System N) : Action N → Prop
  | .insertSwap cols => (s.pools cols.pair).isSome = true
  | .enricher (.handler idx action) =>
    ∀ handler ∈ s.enricher.handlers[idx]?, FixedResume prices handler.stage action
  | .backfill (.response data) =>
    ∀ b ∈ s.backfill, ∀ p ∈ b.phase.current, AnswersWith prices data p.2
  | _ => True

/-- Only the fixed price of a mint counts. -/
def fixed (prices : Prices N) : Evidence N where
  good mint found := found = prices mint
  usable _ _ _ := True

instance [DecidableEq N] (prices : Prices N) (data : Option (PriceResponse N)) :
    (stage : Stage N) → Decidable (AnswersWith prices data stage)
  | .fetching _ _ uncachedMints =>
    match data with
    | some data => inferInstanceAs
        (Decidable (∀ mint ∈ uncachedMints, data.tokenPrice mint = prices mint))
    | none => .isFalse id
  | .lookingUp | .pooled _ | .updating _ | .done => .isTrue trivial

instance [DecidableEq N] (prices : Prices N) (stage : Stage N) :
    (action : HandlerAction N) → Decidable (FixedResume prices stage action)
  | .poolQuery succeeds => inferInstanceAs (Decidable (succeeds = true))
  | .readPrices _ => .isTrue trivial
  | .response _ data => inferInstanceAs (Decidable (AnswersWith prices data stage))
  | .update order => inferInstanceAs (Decidable (order.isSome = true))

instance [DecidableEq N] (prices : Prices N) (s : System N) :
    (action : Action N) → Decidable (FixedPrices prices s action)
  | .insertSwap cols => inferInstanceAs (Decidable ((s.pools cols.pair).isSome = true))
  | .enricher (.handler idx action) => inferInstanceAs (Decidable
      (∀ handler ∈ s.enricher.handlers[idx]?, FixedResume prices handler.stage action))
  | .backfill (.response data) => inferInstanceAs
      (Decidable (∀ b ∈ s.backfill, ∀ p ∈ b.phase.current, AnswersWith prices data p.2))
  | .enricher .deliver | .insertPool _ _ | .startBackfill _ _ _ | .notification _ | .tick _ _
  | .backfill .count | .backfill (.select _) | .backfill .stop | .backfill .queryFailed
  | .backfill .poolQuery | .backfill .readPrices | .backfill (.update _) => .isTrue trivial

variable {prices : Prices N} {s t : System N} {settings : Settings} {action : Action N}
  {pools pools' : String → Option PoolInfo} {trade : Trade}

theorem goodAnswer_of_answersWith {data : Option (PriceResponse N)} {stage : Stage N}
    (h : AnswersWith prices data stage) : (fixed prices).GoodAnswer trade data stage := by
  cases stage with
  | fetching poolInfo results uncachedMints =>
    cases data with
    | none => exact h.elim
    | some data => exact ⟨h, trivial⟩
  | _ => trivial

omit [JsNumber N] in
theorem goodCache_fixed {cached : String → Option (Option (PriceInfo N))} {stage : Stage N} :
    (fixed prices).GoodCache cached trade stage := by
  cases stage with
  | pooled poolInfo => exact fun _ => trivial
  | _ => trivial

theorem completes_of_fixed {act : EnricherAction N} {e : Enricher N} {u : Option VolumeUpdate}
    (hfixed : FixedPrices prices s (.enricher act))
    (hstep : s.enricher.step settings.priceCacheTtl pools act = some (e, u)) :
    Enricher.Completes act := by
  obtain ⟨_, _, rfl, -⟩ | ⟨idx, resumed, handler, _, _, rfl, hhandler, -⟩ :=
    Enricher.step_cases hstep
  · trivial
  · cases resumed with
    | update order => exact Option.isSome_iff_ne_none.mp (hfixed handler hhandler)
    | _ => trivial

theorem ownVolume_of_computed {volumeUsd : N} (h : (fixed prices).Computed pools trade volumeUsd) :
    ownVolume prices pools trade = some (text volumeUsd) := by
  obtain ⟨poolInfo, found, hpool, hgood, -, rfl⟩ := h
  rw [ownVolume, hpool, Option.map_some, Trade.computeVolumeUsd_congr hgood]

theorem ownVolume_grow {volume : String}
    (hpools : ∀ pair poolInfo, pools pair = some poolInfo → pools' pair = some poolInfo)
    (h : ownVolume prices pools trade = some volume) :
    ownVolume prices pools' trade = some volume := by
  obtain ⟨poolInfo, hpool, hvolume⟩ := Option.map_eq_some_iff.mp h
  rw [ownVolume, hpools _ _ hpool, Option.map_some, hvolume]

/-! ## The invariant -/

/-- Every volume is the value of a row of the same transaction, two volumes of a
transaction are equal, and a missing volume is being computed. -/
structure Valued (prices : Prices N) (s : System N) : Prop where
  knows : Knows (fixed prices) s
  pool : ∀ row ∈ s.table.rows, s.pools row.pair ≠ none
  value : ∀ row ∈ s.table.rows, ∀ volume, row.volumeUsd = some volume →
    ∃ row' ∈ s.table.rows, row'.txSig = row.txSig ∧
      ownVolume prices s.pools row'.toTrade = some volume
  shared : ∀ row ∈ s.table.rows, ∀ row' ∈ s.table.rows, row.txSig = row'.txSig →
    ∀ volume volume', row.volumeUsd = some volume → row'.volumeUsd = some volume' →
      volume = volume'
  pending : ∀ row ∈ s.table.rows, row.volumeUsd = none → 0 < s.enricher.outstanding row.txSig

namespace Valued

theorem goodStep (h : Valued prices s) (hfixed : FixedPrices prices s action) :
    GoodStep (fixed prices) settings s action := by
  cases action with
  | enricher act =>
    cases act with
    | deliver => trivial
    | handler idx act =>
      intro handler hhandler
      have hresume := hfixed handler hhandler
      obtain ⟨⟨row, hrow, htrade⟩, -⟩ :=
        h.knows.enricher.handlers handler (List.mem_of_getElem? hhandler)
      cases act with
      | poolQuery succeeds => exact ⟨hresume, htrade ▸ h.pool row hrow⟩
      | readPrices now => exact goodCache_fixed
      | response now data => exact goodAnswer_of_answersWith hresume
      | update order => trivial
  | backfill act =>
    intro b hb
    cases act with
    | readPrices => exact fun _ _ => goodCache_fixed
    | response data => exact fun p hp => goodAnswer_of_answersWith (hfixed b hb p hp)
    | _ => trivial
  | _ => trivial

/-- An update gives all rows of a transaction the value of one of them. -/
theorem withVolume {e : Enricher N} {b : Option (Backfill N)} {u : VolumeUpdate}
    (h : Valued prices s) (hknows : Knows (fixed prices) t)
    (hout : ∀ sig, sig ≠ u.txSig → s.enricher.outstanding sig ≤ e.outstanding sig)
    (htrade : s.HasTrade trade) (hsig : u.txSig = trade.txSig)
    (hvalue : ownVolume prices s.pools trade = some u.volumeUsd)
    (hexec : execute { s with enricher := e, backfill := b } (some u) = some t) :
    Valued prices t := by
  have hpending := outstanding_execute hexec
  obtain ⟨-, rfl⟩ := execute_some hexec
  obtain ⟨origin, horigin, rfl⟩ := htrade
  have hset : SwapTable.setVolume u.volumeUsd u.txSig origin ∈
      (s.table.withVolume u.volumeUsd u.txSig).rows :=
    SwapTable.mem_withVolume.mpr ⟨origin, horigin, rfl⟩
  constructor
  · exact hknows
  · intro row hrow
    obtain ⟨old, hold, rfl⟩ := SwapTable.mem_withVolume.mp hrow
    rw [SwapTable.setVolume_toSwapColumns]
    exact h.pool old hold
  · intro row hrow volume hvolume
    obtain ⟨old, hold, rfl⟩ := SwapTable.mem_withVolume.mp hrow
    by_cases hsame : old.txSig = u.txSig
    · rw [SwapTable.setVolume_of_eq hsame, Option.some.injEq] at hvolume
      refine ⟨_, hset, ?_, ?_⟩
      · rw [SwapTable.setVolume_toSwapColumns, SwapTable.setVolume_toSwapColumns, hsame, hsig]
      · rw [SwapTable.setVolume_toSwapColumns, ← hvolume]
        exact hvalue
    · rw [SwapTable.setVolume_of_ne hsame] at hvolume ⊢
      obtain ⟨row', hrow', hsig', hown⟩ := h.value old hold volume hvolume
      refine ⟨_, SwapTable.mem_withVolume.mpr ⟨row', hrow', rfl⟩, ?_, ?_⟩
      · rw [SwapTable.setVolume_toSwapColumns, hsig']
      · rw [SwapTable.setVolume_toSwapColumns]
        exact hown
  · intro row hrow row' hrow' hsame volume volume' hvolume hvolume'
    obtain ⟨old, hold, rfl⟩ := SwapTable.mem_withVolume.mp hrow
    obtain ⟨old', hold', rfl⟩ := SwapTable.mem_withVolume.mp hrow'
    rw [SwapTable.setVolume_toSwapColumns, SwapTable.setVolume_toSwapColumns] at hsame
    by_cases hu : old.txSig = u.txSig
    · rw [SwapTable.setVolume_of_eq hu] at hvolume
      rw [SwapTable.setVolume_of_eq (hsame ▸ hu)] at hvolume'
      exact Option.some.inj (hvolume.symm.trans hvolume')
    · rw [SwapTable.setVolume_of_ne hu] at hvolume
      rw [SwapTable.setVolume_of_ne fun hu' => hu (hsame.trans hu')] at hvolume'
      exact h.shared old hold old' hold' hsame volume volume' hvolume hvolume'
  · intro row hrow hnone
    obtain ⟨old, hold, rfl⟩ := SwapTable.mem_withVolume.mp hrow
    by_cases hu : old.txSig = u.txSig
    · rw [SwapTable.setVolume_of_eq hu] at hnone
      cases hnone
    · rw [SwapTable.setVolume_of_ne hu] at hnone ⊢
      rw [hpending]
      exact lt_of_lt_of_le (h.pending old hold hnone) (hout _ hu)

theorem congr (h : Valued prices s) (hknows : Knows (fixed prices) t) (htable : t.table = s.table)
    (hpools : t.pools = s.pools)
    (hout : ∀ sig, s.enricher.outstanding sig ≤ t.enricher.outstanding sig) : Valued prices t where
  knows := hknows
  pool := htable ▸ hpools ▸ h.pool
  value := htable ▸ hpools ▸ h.value
  shared := htable ▸ h.shared
  pending := htable ▸ fun row hrow hnone => lt_of_lt_of_le (h.pending row hrow hnone) (hout _)

theorem insertSwap {cols : SwapColumns} (h : Valued prices s) (hknows : Knows (fixed prices) t)
    (hpool : (s.pools cols.pair).isSome = true)
    (hstep : step settings s (.insertSwap cols) = some t) : Valued prices t := by
  have ht := step_insertSwap hstep
  have hpending := outstanding_insertSwap hstep
  have hrows : t.table.rows = s.table.rows ++ [s.table.newRow cols] := by rw [ht]; rfl
  have hpools : t.pools = s.pools := by rw [ht]; rfl
  constructor
  · exact hknows
  · rw [hrows, hpools, List.forall_mem_append]
    refine ⟨h.pool, fun row hrow => ?_⟩
    rw [List.mem_singleton] at hrow
    subst hrow
    exact Option.isSome_iff_ne_none.mp hpool
  · rw [hrows, hpools, List.forall_mem_append]
    constructor
    · intro row hrow volume hvolume
      obtain ⟨row', hrow', hsig, hown⟩ := h.value row hrow volume hvolume
      exact ⟨row', List.mem_append_left _ hrow', hsig, hown⟩
    · intro row hrow volume hvolume
      rw [List.mem_singleton] at hrow
      subst hrow
      cases hvolume
  · rw [hrows]
    intro row hrow row' hrow' hsame volume volume' hvolume hvolume'
    rcases List.mem_append.mp hrow with hrow | hrow
    · rcases List.mem_append.mp hrow' with hrow' | hrow'
      · exact h.shared row hrow row' hrow' hsame volume volume' hvolume hvolume'
      · rw [List.mem_singleton] at hrow'
        subst hrow'
        cases hvolume'
    · rw [List.mem_singleton] at hrow
      subst hrow
      cases hvolume
  · rw [hrows, List.forall_mem_append]
    constructor
    · intro row hrow hnone
      rw [hpending]
      exact Nat.lt_add_right _ (h.pending row hrow hnone)
    · intro row hrow _
      rw [List.mem_singleton] at hrow
      subst hrow
      rw [hpending, if_pos (show cols.txSig = (s.table.newRow cols).txSig from rfl)]
      exact Nat.succ_pos _

theorem step (h : Valued prices s) (hfixed : FixedPrices prices s action)
    (hstep : step settings s action = some t) : Valued prices t := by
  have hgood : GoodStep (fixed prices) settings s action := h.goodStep hfixed
  have hknows := h.knows.step hgood hstep
  cases action with
  | insertSwap cols => exact h.insertSwap hknows hfixed hstep
  | insertPool pair poolInfo =>
    obtain ⟨hnone, rfl⟩ := step_insertPool hstep
    have hgrow : ∀ p info, s.pools p = some info →
        Function.update s.pools pair (some poolInfo) p = some info := by
      intro p info hinfo
      rw [← hinfo]
      refine Function.update_of_ne ?_ _ _
      rintro rfl
      cases hnone.symm.trans hinfo
    refine ⟨hknows, fun row hrow => ?_, fun row hrow volume hvolume => ?_, h.shared, h.pending⟩
    · obtain ⟨info, hinfo⟩ := Option.ne_none_iff_exists'.mp (h.pool row hrow)
      exact Option.ne_none_iff_exists'.mpr ⟨info, hgrow _ _ hinfo⟩
    · obtain ⟨row', hrow', hsig, hown⟩ := h.value row hrow volume hvolume
      exact ⟨row', hrow', hsig, ownVolume_grow hgrow hown⟩
  | enricher act =>
    obtain ⟨e, update, henricher, hexec⟩ := step_enricher hstep
    have hcompletes := completes_of_fixed hfixed henricher
    have hout := Enricher.outstanding_step hcompletes henricher
    cases update with
    | none =>
      cases hexec
      exact h.congr hknows rfl rfl fun sig => (hout sig).le
    | some u =>
      obtain ⟨trade, volumeUsd, -, htrade, hcomputed, hsig, htext⟩ :=
        (h.knows.enricher.step hgood henricher).2 u rfl
      refine h.withVolume (b := s.backfill) hknows (fun sig hne => ?_) htrade hsig ?_ hexec
      · rw [hout sig]
        simp [Ne.symm hne]
      · rw [htext]
        exact ownVolume_of_computed hcomputed
  | startBackfill pairFilter maxLimit batchSize =>
    have ht := step_startBackfill hstep
    subst ht
    exact h.congr hknows rfl rfl fun _ => le_rfl
  | backfill act =>
    obtain ⟨old, b, update, hold, hbackfill, hexec⟩ := step_backfill hstep
    cases update with
    | none =>
      cases hexec
      exact h.congr hknows rfl rfl fun _ => le_rfl
    | some u =>
      obtain ⟨row, rest, volumeUsd, -, -, htrade, hcomputed, hsig, htext⟩ :=
        ((h.knows.backfill old hold).step (fun _ => System.hasTrade_of_mem) (hgood old hold)
          hbackfill).2 u rfl
      refine h.withVolume (e := s.enricher) hknows (fun _ _ => le_rfl) htrade hsig ?_ hexec
      rw [htext]
      exact ownVolume_of_computed hcomputed
  | notification now =>
    obtain ⟨payload, queue, -, rfl⟩ := step_notification hstep
    exact h.congr hknows rfl rfl fun _ => le_rfl
  | tick now timedOut =>
    obtain ⟨-, rfl⟩ := step_tick hstep
    exact h.congr hknows rfl rfl fun _ => le_rfl

end Valued

theorem Valued.start (prices : Prices N) (pools : String → Option PoolInfo) :
    Valued prices (System.start pools) where
  knows := .start pools
  pool _ h := nomatch h
  value _ h := nomatch h
  shared _ h := nomatch h
  pending _ h := nomatch h

/-! ## Own volumes -/

/-- For every interleaving of the two scripts with fixed prices and known pools,
once every row has been handled: each row holds its own value exactly when the
rows of each transaction all have the same value. -/
theorem own_volume_iff (settings : Settings) (pools : String → Option PoolInfo)
    (prices : Prices N) (actions : List (Action N)) (s : System N)
    (hrun : run (step settings) (System.start pools) actions = some s)
    (hfixed : Along (step settings) (FixedPrices prices) (System.start pools) actions)
    (hhandled : AllHandled s) : EveryOwn prices s ↔ SameValues prices s := by
  have hvalued : Valued prices s :=
    run_invariant (fun _ _ _ => Valued.step) (Valued.start prices pools) hfixed hrun
  have hsome : ∀ row ∈ s.table.rows, ∃ volume, row.volumeUsd = some volume := by
    intro row hrow
    refine Option.ne_none_iff_exists'.mp fun hnone => ?_
    exact absurd (hhandled row hrow) (hvalued.pending row hrow hnone).ne'
  constructor
  · intro hown row hrow row' hrow' hsame
    obtain ⟨volume, hvolume⟩ := hsome row hrow
    obtain ⟨volume', hvolume'⟩ := hsome row' hrow'
    rw [← hown row hrow, ← hown row' hrow', hvolume, hvolume',
      hvalued.shared row hrow row' hrow' hsame volume volume' hvolume hvolume']
  · intro hsame row hrow
    obtain ⟨volume, hvolume⟩ := hsome row hrow
    obtain ⟨row', hrow', hsig, hown⟩ := hvalued.value row hrow volume hvolume
    rw [hvolume, ← hown]
    exact hsame row' hrow' row hrow hsig

end

/-! ## Two swaps of one transaction -/

/-- Every token costs one dollar. -/
def oneDollar : Prices ℚ := fun _ => some ⟨1, 0⟩

/-- The state that `enrichedInTurn` leaves behind. -/
def enrichedState : System ℚ :=
  (run (step defaults) (System.start onePool) enrichedInTurn).get (by decide +kernel)

theorem enrichedInTurn_runs :
    run (step defaults) (System.start onePool) enrichedInTurn = some enrichedState :=
  (Option.some_get _).symm

theorem enrichedInTurn_fixed :
    Along (step defaults) (FixedPrices oneDollar) (System.start onePool) enrichedInTurn := by
  decide +kernel

theorem enrichedState_handled : AllHandled enrichedState := by
  unfold AllHandled
  decide +kernel

theorem own_volume_iff_enrichedInTurn :
    EveryOwn oneDollar enrichedState ↔ SameValues oneDollar enrichedState :=
  own_volume_iff defaults onePool oneDollar enrichedInTurn enrichedState enrichedInTurn_runs
    enrichedInTurn_fixed enrichedState_handled

/-- The first swap is worth ten dollars, and both rows end at twenty. -/
theorem second_volume_overwrites_first :
    run (step defaults) (System.start onePool) enrichedInTurn = some enrichedState ∧
      Along (step defaults) (FixedPrices oneDollar) (System.start onePool) enrichedInTurn ∧
      AllHandled enrichedState ∧
      (enrichedState.table.rows.map fun row => row.volumeUsd) = [some "20", some "20"] ∧
      ¬ EveryOwn oneDollar enrichedState := by
  refine ⟨enrichedInTurn_runs, enrichedInTurn_fixed, enrichedState_handled, by decide +kernel, ?_⟩
  unfold EveryOwn
  decide +kernel

end Stream

end OmnipairIndexer
