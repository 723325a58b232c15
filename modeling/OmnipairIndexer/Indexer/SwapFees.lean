/-
The fees that `upsert_swap_event` stores.

On the side of the token that is paid in, the fee is a difference of two fields.  On the
other side it is this fee at the ratio of the reserves, in double precision and cast to
`u64`.  Nothing relates the fields of an event to each other: the difference can wrap, the
ratio of an empty reserve is infinite or no number, and a valuation can be beyond 64 bits,
where the cast saturates.

`stores_fees_iff` gives the events for which none of this happens.  A valuation is taken
for right when it is off by at most one unit and 2^-50 of itself, which is more than the
five roundings and the cast can do.
-/
import OmnipairIndexer.Indexer.Effects
import Mathlib.Tactic.FieldSimp

namespace OmnipairIndexer

open Fallible Relational

open Binary64 hiding round

/-! ## The two sides of a swap -/

namespace SwapEvent

def reserveIn (event : SwapEvent) : UInt64 :=
  if event.isToken0In then event.reserve0 else event.reserve1

def reserveOut (event : SwapEvent) : UInt64 :=
  if event.isToken0In then event.reserve1 else event.reserve0

/-- The ratio of the reserves, as the program has it. -/
def reserveRatio (event : SwapEvent) : F64 :=
  (F64.ofUInt64 event.reserveOut).div (F64.ofUInt64 event.reserveIn)

/-- A fee in the token that is paid in, in units of the other one. -/
def valuation (event : SwapEvent) (fee : ℤ) : ℚ :=
  (fee : ℚ) * event.reserveOut.toNat / event.reserveIn.toNat

end SwapEvent

def SwapRow.inputFee (row : SwapRow) : ℤ := if row.isToken0In then row.feePaid0 else row.feePaid1

def SwapRow.otherFee (row : SwapRow) : ℤ := if row.isToken0In then row.feePaid1 else row.feePaid0

/-- The row has the fee of the event, and its value on the other side. -/
structure FeesOf (event : SwapEvent) (row : SwapRow) : Prop where
  exact : row.inputFee = event.amountIn.toNat - event.amountInAfterFee.toNat
  nonneg : 0 ≤ row.inputFee
  le_amountIn : row.inputFee ≤ event.amountIn.toNat
  ratio : ∃ q, event.reserveRatio = .finite q
  value : |(row.otherFee : ℚ) - event.valuation row.inputFee| ≤
    1 + event.valuation row.inputFee / 2 ^ 50

/-- Whenever the database takes its statements, the call stores such a row. -/
def StoresFees (event : SwapEvent) : Prop :=
  ∀ txSignature slot env db, CallEnv.Healthy env →
    ∃ db' stored, upsertSwapEvent txSignature slot env event db = (.ok (), db') ∧
      db'.swaps.lookup (txSignature, env.eventTimestamp) = some stored ∧ FeesOf event stored.cols

/-- The fields of the event are as a swap leaves them. -/
structure FeesFit (event : SwapEvent) : Prop where
  after_le : event.amountInAfterFee.toNat ≤ event.amountIn.toNat
  reserve_pos : 0 < event.reserveIn.toNat
  /-- The fee at the ratio of the reserves is at most 2^64, by the same margin. -/
  value_le : (event.amountIn.toNat - event.amountInAfterFee.toNat) * event.reserveOut.toNat *
    (2 ^ 50 - 1) ≤ 2 ^ 114 * event.reserveIn.toNat

/-! ## The row -/

theorem inputFee_row (event : SwapEvent) (txSignature : String) (slot : Int64) :
    (event.row txSignature slot).inputFee = event.feeAmount.toNat := by
  cases hside : event.isToken0In <;>
    simp [SwapRow.inputFee, SwapEvent.row, SwapEvent.feePaid0, SwapEvent.feePaid1, hside]

theorem otherFee_row (event : SwapEvent) (txSignature : String) (slot : Int64) :
    (event.row txSignature slot).otherFee =
      (event.reserveRatio.mul (F64.ofUInt64 event.feeAmount)).toUInt64.toNat := by
  cases hside : event.isToken0In <;>
    simp [SwapRow.otherFee, SwapEvent.row, SwapEvent.feePaid0, SwapEvent.feePaid1, convertFee,
      SwapEvent.reserveRatio, SwapEvent.reserveIn, SwapEvent.reserveOut, hside]

theorem feeAmount_exact_iff (event : SwapEvent) :
    (event.feeAmount.toNat : ℤ) = event.amountIn.toNat - event.amountInAfterFee.toNat ↔
      event.amountInAfterFee.toNat ≤ event.amountIn.toNat := by
  constructor
  · intro h
    omega
  · intro h
    rw [SwapEvent.feeAmount, UInt64.toNat_sub_of_le _ _ (UInt64.le_iff_toNat_le.mpr h)]
    omega

/-! ## The valuation -/

theorem ratio_finite_iff (event : SwapEvent) :
    (∃ q, event.reserveRatio = .finite q) ↔ 0 < event.reserveIn.toNat := by
  constructor
  · rintro ⟨q, hq⟩
    by_contra hzero
    have hround : Binary64.round (event.reserveIn.toNat : ℚ) = 0 := by
      rw [Nat.eq_zero_of_not_pos hzero]
      exact if_pos rfl
    rw [SwapEvent.reserveRatio, F64.ofUInt64, F64.ofUInt64, F64.div, hround, if_pos rfl] at hq
    split at hq <;> cases hq
  · intro hpos
    have hround : Binary64.round (event.reserveIn.toNat : ℚ) ≠ 0 :=
      (round_pos (by exact_mod_cast hpos)).ne'
    exact ⟨_, if_neg hround⟩

/-- What is cast to `u64` is off by five roundings. -/
theorem within_valuation {event : SwapEvent} (hpos : 0 < event.reserveIn.toNat) :
    ∃ d, event.reserveRatio.mul (F64.ofUInt64 event.feeAmount) = .finite d ∧
      Within (1 - 1 / 2 ^ 50) (1 + 1 / 2 ^ 50) (event.valuation event.feeAmount.toNat) d := by
  have hin : (0 : ℚ) < event.reserveIn.toNat := by exact_mod_cast hpos
  have hout : (0 : ℚ) ≤ event.reserveOut.toNat := Nat.cast_nonneg _
  have hfee : (0 : ℚ) ≤ event.feeAmount.toNat := Nat.cast_nonneg _
  have hlo : (0 : ℚ) < 1 - unit := by norm_num [unit]
  have hhi : (0 : ℚ) < 1 + unit := by norm_num [unit]
  have hround : Binary64.round (event.reserveIn.toNat : ℚ) ≠ 0 := (round_pos hin).ne'
  have hfinite : event.reserveRatio = .finite (Binary64.round
      (Binary64.round event.reserveOut.toNat / Binary64.round event.reserveIn.toNat)) :=
    if_neg hround
  refine ⟨_, by rw [hfinite, F64.ofUInt64, F64.mul], ?_⟩
  have hquotient : (0 : ℚ) ≤ (1 - unit) / (1 + unit) := div_nonneg hlo.le hhi.le
  have hratio := ((within_round hout).div (within_round hin.le) hlo.le hlo hout hin).round
    hquotient (div_nonneg hout hin.le)
  have hfactor : (0 : ℚ) ≤ (1 - unit) / (1 + unit) * (1 - unit) := mul_nonneg hquotient hlo.le
  have hproduct := (hratio.mul (within_round hfee) hfactor hlo.le (div_nonneg hout hin.le)
    hfee).round (mul_nonneg hfactor hlo.le) (mul_nonneg (div_nonneg hout hin.le) hfee)
  have hvaluation : event.valuation event.feeAmount.toNat =
      (event.reserveOut.toNat : ℚ) / event.reserveIn.toNat * event.feeAmount.toNat := by
    rw [SwapEvent.valuation, Int.cast_natCast]
    ring
  rw [hvaluation]
  exact hproduct.mono (mul_nonneg (div_nonneg hout hin.le) hfee) (by norm_num [unit])
    (by norm_num [unit])

/-- A cast from within 2^-50 of a value is off by no more than this and one unit, until the
value leaves the range. -/
theorem cast_near_iff {x d : ℚ} (hx : 0 ≤ x)
    (hd : Within (1 - 1 / 2 ^ 50) (1 + 1 / 2 ^ 50) x d) :
    |((F64.finite d).toUInt64.toNat : ℚ) - x| ≤ 1 + x / 2 ^ 50 ↔
      x * (2 ^ 50 - 1) ≤ 2 ^ 114 := by
  obtain ⟨hle, hcast⟩ := F64.toUInt64_finite (hd.nonneg (by norm_num) hx)
  obtain ⟨hlow, hhigh⟩ := hd
  have hmax : ((F64.finite d).toUInt64.toNat : ℚ) ≤ 2 ^ 64 - 1 := by
    have hlt := (F64.finite d).toUInt64.toNat_lt
    have hnat : (F64.finite d).toUInt64.toNat + 1 ≤ 2 ^ 64 := hlt
    have hrat : (((F64.finite d).toUInt64.toNat + 1 : ℕ) : ℚ) ≤ ((2 ^ 64 : ℕ) : ℚ) :=
      Nat.cast_le.mpr hnat
    push_cast at hrat
    linarith
  rw [abs_le]
  constructor
  · rintro ⟨hbelow, -⟩
    linarith
  · intro hrange
    refine ⟨?_, by linarith⟩
    rcases hcast with hlt | hsaturated
    · linarith
    · rw [hsaturated]
      push_cast
      linarith

/-! ## The stored row -/

/-- The fee on the other side is off by too much once the range of `u64` is left. -/
theorem otherFee_near_iff {event : SwapEvent} (txSignature : String) (slot : Int64)
    (hpos : 0 < event.reserveIn.toNat)
    (hle : event.amountInAfterFee.toNat ≤ event.amountIn.toNat) :
    |((event.row txSignature slot).otherFee : ℚ) -
        event.valuation (event.row txSignature slot).inputFee| ≤
      1 + event.valuation (event.row txSignature slot).inputFee / 2 ^ 50 ↔
    (event.amountIn.toNat - event.amountInAfterFee.toNat) * event.reserveOut.toNat *
      (2 ^ 50 - 1) ≤ 2 ^ 114 * event.reserveIn.toNat := by
  obtain ⟨d, hd, hwithin⟩ := within_valuation hpos
  have hnonneg : 0 ≤ event.valuation event.feeAmount.toNat := by
    rw [SwapEvent.valuation]
    positivity
  have hfee : event.amountIn.toNat - event.amountInAfterFee.toNat = event.feeAmount.toNat := by
    have hexact := (feeAmount_exact_iff event).mpr hle
    omega
  have hin : (0 : ℚ) < event.reserveIn.toNat := by exact_mod_cast hpos
  rw [otherFee_row, inputFee_row, hd, Int.cast_natCast, cast_near_iff hnonneg hwithin, hfee,
    SwapEvent.valuation, Int.cast_natCast, div_mul_eq_mul_div, div_le_iff₀ hin]
  have hcast : ((event.feeAmount.toNat * event.reserveOut.toNat * (2 ^ 50 - 1) : ℕ) : ℚ) =
      (event.feeAmount.toNat : ℚ) * event.reserveOut.toNat * (2 ^ 50 - 1) := by
    push_cast
    norm_num
  have hcast' : ((2 ^ 114 * event.reserveIn.toNat : ℕ) : ℚ) =
      2 ^ 114 * (event.reserveIn.toNat : ℚ) := by push_cast; rfl
  rw [← hcast, ← hcast', Nat.cast_le]

theorem feesOf_iff (event : SwapEvent) (txSignature : String) (slot : Int64) :
    FeesOf event (event.row txSignature slot) ↔ FeesFit event := by
  have hinput := inputFee_row event txSignature slot
  constructor
  · intro h
    have hle := (feeAmount_exact_iff event).mp (hinput ▸ h.exact)
    have hpos := (ratio_finite_iff event).mp h.ratio
    exact ⟨hle, hpos, (otherFee_near_iff txSignature slot hpos hle).mp h.value⟩
  · intro h
    have hexact := (feeAmount_exact_iff event).mpr h.after_le
    refine ⟨hinput.trans hexact, ?_, ?_, (ratio_finite_iff event).mpr h.reserve_pos,
      (otherFee_near_iff txSignature slot h.reserve_pos h.after_le).mpr h.value_le⟩
    · rw [hinput]
      omega
    · rw [hinput]
      omega

theorem FeesOf.congr {event : SwapEvent} {row row' : SwapRow} (h : FeesOf event row)
    (hinput : row.inputFee = row'.inputFee) (hother : row.otherFee = row'.otherFee) :
    FeesOf event row' where
  exact := hinput ▸ h.exact
  nonneg := hinput ▸ h.nonneg
  le_amountIn := hinput ▸ h.le_amountIn
  ratio := h.ratio
  value := by
    rw [← hinput, ← hother]
    exact h.value

/-- A new row and one in conflict have the fees of the call. -/
theorem stored_fees (event : SwapEvent) (txSignature : String) (slot : Int64) {env : CallEnv}
    (db : Database) (henv : env.Healthy) :
    ∃ db' stored, upsertSwapEvent txSignature slot env event db = (.ok (), db') ∧
      db'.swaps.lookup (txSignature, env.eventTimestamp) = some stored ∧
      stored.cols.inputFee = (event.row txSignature slot).inputFee ∧
      stored.cols.otherFee = (event.row txSignature slot).otherFee := by
  rcases hrun : upsertSwapEvent txSignature slot env event db with ⟨result, db'⟩
  have hok : result = .ok () := by
    have hinRange : (⟨.swap event, txSignature, slot⟩ : UpsertCall).InRange := by
      intro p hp n hn
      rw [List.mem_singleton.mp hp] at hn
      rw [List.mem_singleton.mp hn]
      exact ⟨Int64.le_toInt slot, Int64.toInt_lt slot⟩
    have hstate := (UpsertCall.run_ok_of_healthy henv _ db).mpr hinRange
    rwa [show UpsertCall.run ⟨.swap event, txSignature, slot⟩ env db = _ from hrun] at hstate
  subst hok
  have hdb : db' = applyAll env [(0, .swaps (event.row txSignature slot))] db :=
    @UpsertCall.run_of_ok ⟨.swap event, txSignature, slot⟩ env db db' hrun
  have hlookup : (db'.swaps.lookup (txSignature, env.eventTimestamp)).map
      (fun r => (r.cols.inputFee, r.cols.otherFee)) =
      some ((event.row txSignature slot).inputFee, (event.row txSignature slot).otherFee) := by
    rw [hdb]
    exact (SerialTable.map_lookup_upsert (fun _ _ => rfl) db.swaps _).trans (if_pos rfl)
  obtain ⟨stored, hstored, hfees⟩ := Option.map_eq_some_iff.mp hlookup
  exact ⟨db', stored, rfl, hstored, (Prod.mk.inj hfees).1, (Prod.mk.inj hfees).2⟩

/-- The fees of an event are stored as they should be exactly when its fields fit. -/
theorem stores_fees_iff (event : SwapEvent) : StoresFees event ↔ FeesFit event := by
  constructor
  · intro h
    have henv := CallEnv.healthyAt_healthy 0
    obtain ⟨db', stored, hrun, hlookup, hfees⟩ := h "" 0 (.healthyAt 0) .empty henv
    obtain ⟨db'', stored', hrun', hlookup', hinput, hother⟩ :=
      stored_fees event "" 0 .empty henv
    obtain rfl : db' = db'' := (Prod.mk.inj (hrun.symm.trans hrun')).2
    obtain rfl : stored = stored' := Option.some.inj (hlookup.symm.trans hlookup')
    exact (feesOf_iff event "" 0).mp (hfees.congr hinput hother)
  · intro h txSignature slot env db henv
    obtain ⟨db', stored, hrun, hlookup, hinput, hother⟩ :=
      stored_fees event txSignature slot db henv
    exact ⟨db', stored, hrun, hlookup,
      ((feesOf_iff event txSignature slot).mpr h).congr hinput.symm hother.symm⟩

/-- A swap of 10 of token 0 with a fee of 1, in an event with no reserve of token 0. -/
def emptyReserve : SwapEvent :=
  ⟨0, 1000, true, 10, 9, 9, ⟨.default, .default, 0⟩⟩

/-- The fee is worth the largest number in token 1. -/
theorem empty_reserve_saturates :
    emptyReserve.feePaid1.toNat = 2 ^ 64 - 1 ∧ ¬ StoresFees emptyReserve := by
  refine ⟨by decide +kernel, fun h => ?_⟩
  obtain ⟨db', stored, -, -, hfees⟩ :=
    h "" 0 (.healthyAt 0) .empty (CallEnv.healthyAt_healthy 0)
  exact absurd ((ratio_finite_iff emptyReserve).mp hfees.ratio) (by decide)

end OmnipairIndexer
