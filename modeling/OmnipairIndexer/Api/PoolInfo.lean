/-
The prices that `getPoolInfo` answers with.

The endpoint reads the two latest swaps of a pair.  The reserves of the latest give the
spot prices, and the stored EMA of the one before it is taken one step further.  The
stored EMA is a price of token 0 with six decimals, and the step takes it for a price in
NAD, and for the price of either token.

In NAD the stored value is next to nothing, so that the answer falls short by the weight
that it still has.  `ema_survives_iff` says how much weight the law of the average can
bear.  The fields of the answer that come from the pools table are left out.
-/
import OmnipairIndexer.Scripts.FillEmaPrices

namespace OmnipairIndexer

open EmaCalculator

namespace PoolInfo

/-- The columns that are selected; the timestamp is in microseconds. -/
structure SwapRow where
  reserve0 : ℕ
  reserve1 : ℕ
  timestamp : ℤ
  emaPrice : Option ℚ
  deriving DecidableEq

def SwapRow.seconds (swap : SwapRow) : ℤ := swap.timestamp / 1000000

structure PoolData where
  price0 : Option ℚ
  price1 : Option ℚ
  emaPrice0 : Option ℚ
  emaPrice1 : Option ℚ
  reserve0 : Option ℕ
  reserve1 : Option ℕ
  timestamp : Option ℤ
  deriving DecidableEq

/-- A quotient that is not a finite number is `null` in the answer. -/
def quotient (a b : ℕ) : Option ℚ := if b = 0 then none else some (a / b)

/-- The EMAs after the latest swap, if the one before it has an EMA. -/
def currentEma (latest previous : SwapRow) (now : ℤ) : Option EmaUpdateResult :=
  previous.emaPrice.map fun emaPrice =>
    let lastPrice0Ema := emaPrice
    let lastPrice1Ema := emaPrice
    calculateEmaFromPoolData latest.reserve0 latest.reserve1 (some lastPrice0Ema)
      (some lastPrice1Ema) (some previous.seconds) now

/-- `swaps` are the swaps of the pair in the order of their ids. -/
def getPoolInfo (swaps : List SwapRow) (now : ℤ) : PoolData :=
  match swaps.reverse.take 2 with
  | [] => ⟨none, none, none, none, none, none, none⟩
  | latest :: rest =>
    let price0 := quotient latest.reserve1 latest.reserve0
    let price1 := quotient latest.reserve0 latest.reserve1
    let emaResult := rest.head?.bind fun previous => currentEma latest previous now
    { price0 := price0
      price1 := price1
      emaPrice0 := (emaResult.map fun ema => fromNad ema.price0Ema).or price0
      emaPrice1 := (emaResult.map fun ema => fromNad ema.price1Ema).or price1
      reserve0 := some latest.reserve0
      reserve1 := some latest.reserve1
      timestamp := some latest.timestamp }

/-! ## What is read of a step -/

section Steps

variable {bound spotPrice lastEma : ℚ} {weight : ℤ}

/-- The last value takes no more from the spot price than leaves `bound`, up to rounding. -/
def LeavesAtLeast (weight : ℤ) (lastEma spotPrice bound : ℚ) : Prop :=
  weight * (spotPrice - lastEma) ≤ NAD * (spotPrice - (1000 * ⌈bound * 10 ^ 6⌉ - 1500))

/-- The last value adds no more to the spot price than stays below `bound`, up to
rounding. -/
def AddsAtMost (weight : ℤ) (lastEma spotPrice bound : ℚ) : Prop :=
  weight * (lastEma - spotPrice) < NAD * (1000 * ⌊bound * 10 ^ 6⌋ + 1500 - spotPrice)

instance : Decidable (LeavesAtLeast weight lastEma spotPrice bound) :=
  inferInstanceAs (Decidable (_ ≤ _))

instance : Decidable (AddsAtMost weight lastEma spotPrice bound) :=
  inferInstanceAs (Decidable (_ < _))

theorem leavesAtLeast_iff :
    bound - 1 / 10 ^ 6 ≤ (micros (blend lastEma spotPrice weight) : ℚ) / 10 ^ 6 ↔
      LeavesAtLeast weight lastEma spotPrice bound := by
  have hceil : bound - 1 / 10 ^ 6 ≤ (micros (blend lastEma spotPrice weight) : ℚ) / 10 ^ 6 ↔
      ⌈bound * 10 ^ 6⌉ - 1 ≤ micros (blend lastEma spotPrice weight) := by
    rw [sub_le_iff_le_add, ← add_div, le_div_iff₀ (by norm_num), sub_le_iff_le_add, Int.ceil_le]
    push_cast
    exact Iff.rfl
  rw [hceil, le_micros_iff, le_blend_iff, LeavesAtLeast]
  push_cast
  ring_nf

theorem addsAtMost_iff :
    (micros (blend lastEma spotPrice weight) : ℚ) / 10 ^ 6 ≤ bound + 1 / 10 ^ 6 ↔
      AddsAtMost weight lastEma spotPrice bound := by
  have hfloor : (micros (blend lastEma spotPrice weight) : ℚ) / 10 ^ 6 ≤ bound + 1 / 10 ^ 6 ↔
      micros (blend lastEma spotPrice weight) < ⌊bound * 10 ^ 6⌋ + 2 := by
    rw [← sub_le_iff_le_add, ← sub_div, div_le_iff₀ (by norm_num)]
    rw [show ⌊bound * 10 ^ 6⌋ + 2 = ⌊bound * 10 ^ 6⌋ + 1 + 1 by ring, Int.lt_add_one_iff,
      ← sub_le_iff_le_add, Int.le_floor]
    push_cast
    exact Iff.rfl
  rw [hfloor, micros_lt_iff, blend_lt_iff, AddsAtMost]
  push_cast
  ring_nf

/-- What is not above the price that is meant stays so. -/
theorem addsAtMost_of_le (hweight : 0 ≤ weight ∧ weight ≤ NAD) (hlast : lastEma ≤ bound * NAD)
    (hspot : spotPrice ≤ bound * NAD) : AddsAtMost weight lastEma spotPrice bound := by
  rw [AddsAtMost, ← blend_lt_iff]
  have hle := blend_le hweight hlast hspot
  have hfloor := Int.lt_floor_add_one (bound * 10 ^ 6)
  have hscale : bound * NAD = 1000 * (bound * 10 ^ 6) := by
    norm_num [NAD]
    ring
  linarith

end Steps

section Answer

def spotPrice0 (latest : SwapRow) : ℤ := calculateSpotPrice latest.reserve0 latest.reserve1 true

def spotPrice1 (latest : SwapRow) : ℤ := calculateSpotPrice latest.reserve0 latest.reserve1 false

theorem micros_calculated (emaPrice : ℚ) (spotPrice lastUpdate now : ℤ) :
    fromNad (computeEma (initialEma (some emaPrice) spotPrice)
        (lastUpdateTime (some lastUpdate) now) spotPrice DEFAULT_HALF_LIFE now) =
      micros (blend emaPrice spotPrice (clockWeight emaPrice lastUpdate now)) / 10 ^ 6 := by
  rw [fromNad_eq, micros_computeEma, blend_initialEma]

/-- What the answer has, if the swap before the latest has an EMA. -/
theorem getPoolInfo_eq (rows : List SwapRow) (latest : SwapRow) {previous : SwapRow} (now : ℤ)
    {emaPrice : ℚ} (hema : previous.emaPrice = some emaPrice) :
    let weight := clockWeight emaPrice previous.seconds now
    getPoolInfo (rows ++ [previous, latest]) now =
      { price0 := quotient latest.reserve1 latest.reserve0
        price1 := quotient latest.reserve0 latest.reserve1
        emaPrice0 := some (micros (blend emaPrice (spotPrice0 latest) weight) / 10 ^ 6)
        emaPrice1 := some (micros (blend emaPrice (spotPrice1 latest) weight) / 10 ^ 6)
        reserve0 := some latest.reserve0
        reserve1 := some latest.reserve1
        timestamp := some latest.timestamp } := by
  intro weight
  have hrows : (rows ++ [previous, latest]).reverse.take 2 = [latest, previous] := by
    rw [List.reverse_append]
    rfl
  simp only [getPoolInfo, hrows, List.head?_cons, Option.bind_some, currentEma, hema,
    Option.map_some, calculateEmaFromPoolData, micros_calculated, Option.some_or]
  rfl

end Answer

/-! ## The law of the stored EMA -/

/-- `emaPrice0` lies between the stored EMA and `price0`, up to the rounding. -/
def Between (info : PoolData) (emaPrice : ℚ) : Prop :=
  ∃ price ∈ info.price0, ∃ current ∈ info.emaPrice0,
    min emaPrice price - 1 / 10 ^ 6 ≤ current ∧ current ≤ max emaPrice price + 1 / 10 ^ 6

/-- The EMAs are the prices, up to the rounding. -/
def Level (info : PoolData) : Prop :=
  (∃ price ∈ info.price0, ∃ current ∈ info.emaPrice0,
      price - 1 / 10 ^ 6 ≤ current ∧ current ≤ price + 1 / 10 ^ 6) ∧
    ∃ price ∈ info.price1, ∃ current ∈ info.emaPrice1,
      price - 1 / 10 ^ 6 ≤ current ∧ current ≤ price + 1 / 10 ^ 6

/-- A run of `fillEmaPrices`, in exact arithmetic, stored the value when the reserves had never
changed. -/
def StoredForConstant (reserve0 reserve1 : ℕ) (emaPrice : ℚ) : Prop :=
  ∃ (batchSize : ℕ) (swaps : List FillEmaPrices.Reading), 0 < batchSize ∧
    (∀ reading ∈ swaps, reading.1.reserve0 = reserve0 ∧ reading.1.reserve1 = reserve1) ∧
    ∃ update ∈ (FillEmaPrices.processPairSwaps .exact batchSize swaps).flatten,
      update.emaPrice = emaPrice

/-- In exact arithmetic the script keeps a price that does not change. -/
theorem exact_keeps (reserve0 reserve1 : ℕ) :
    FillEmaPrices.Calculator.exact.Keeps reserve0 reserve1
      (calculateSpotPrice reserve0 reserve1 true) := by
  intro now
  constructor
  · exact computeEma_self _ _ _
  · intro lastPrice1Ema lastUpdate
    change computeEma (initialEma _ _) _ _ _ _ = _
    rw [initialEma_self, computeEma_self]

theorem StoredForConstant.eq_fromNad {latest : SwapRow} {emaPrice : ℚ}
    (h : StoredForConstant latest.reserve0 latest.reserve1 emaPrice) :
    emaPrice = fromNad (spotPrice0 latest) := by
  obtain ⟨batchSize, swaps, hbatch, hconstant, update, hupdate, rfl⟩ := h
  exact (exact_keeps _ _).processPairSwaps hbatch hconstant update hupdate

theorem ediv_le_quotient {a b : ℕ} (hb : 0 < b) :
    ((a * NAD / b : ℤ) : ℚ) ≤ (a / b : ℚ) * NAD := by
  have hb' : (0 : ℚ) < b := by exact_mod_cast hb
  have hle : (a * NAD / b : ℤ) * b ≤ a * NAD := Int.ediv_mul_le _ (by omega)
  rw [div_mul_eq_mul_div, le_div_iff₀ hb']
  exact_mod_cast hle

section Law

variable {latest previous : SwapRow} {emaPrice : ℚ}

theorem spotPrice0_le (h : 0 < latest.reserve0) :
    (spotPrice0 latest : ℚ) ≤ (latest.reserve1 / latest.reserve0 : ℚ) * NAD := by
  rw [spotPrice0, calculateSpotPrice, if_pos rfl, if_neg h.ne']
  exact ediv_le_quotient h

theorem quotient_pos {a b : ℕ} (hb : 0 < b) : quotient a b = some (a / b : ℚ) := by
  rw [quotient, if_neg hb.ne']

/-- `emaPrice0` cannot be too high: the unscaled value is below both prices in NAD. -/
theorem between_iff (rows : List SwapRow) (now : ℤ) (hreserve0 : 0 < latest.reserve0)
    (hema : previous.emaPrice = some emaPrice) (hpos : 0 < emaPrice) :
    Between (getPoolInfo (rows ++ [previous, latest]) now) emaPrice ↔
      LeavesAtLeast (clockWeight emaPrice previous.seconds now) emaPrice (spotPrice0 latest)
        (min emaPrice (latest.reserve1 / latest.reserve0)) := by
  have hone : (1 : ℚ) ≤ NAD := by norm_num [NAD]
  have hadds : AddsAtMost (clockWeight emaPrice previous.seconds now) emaPrice (spotPrice0 latest)
      (max emaPrice (latest.reserve1 / latest.reserve0)) := by
    refine addsAtMost_of_le (clockWeight_mem _ _ _) ?_ ((spotPrice0_le hreserve0).trans ?_)
    · refine (le_max_left _ _).trans (le_mul_of_one_le_right ?_ hone)
      exact hpos.le.trans (le_max_left _ _)
    · exact mul_le_mul_of_nonneg_right (le_max_right _ _) NAD_cast_pos.le
  rw [getPoolInfo_eq rows latest now hema, Between]
  simp only [quotient_pos hreserve0, Option.mem_def, Option.some.injEq, exists_eq_left']
  rw [leavesAtLeast_iff, addsAtMost_iff]
  exact and_iff_left hadds

/-- For token 1 the value of token 0 can be too high as well as too low. -/
theorem level_iff (rows : List SwapRow) (now : ℤ) (hreserve0 : 0 < latest.reserve0)
    (hreserve1 : 0 < latest.reserve1) (hema : previous.emaPrice = some emaPrice)
    (hstored : StoredForConstant latest.reserve0 latest.reserve1 emaPrice) :
    let weight := clockWeight emaPrice previous.seconds now
    let price1 : ℚ := latest.reserve0 / latest.reserve1
    Level (getPoolInfo (rows ++ [previous, latest]) now) ↔
      LeavesAtLeast weight emaPrice (spotPrice0 latest) (latest.reserve1 / latest.reserve0) ∧
        LeavesAtLeast weight emaPrice (spotPrice1 latest) price1 ∧
        AddsAtMost weight emaPrice (spotPrice1 latest) price1 := by
  intro weight price1
  have hspot := spotPrice0_le hreserve0
  have hlast : emaPrice ≤ (latest.reserve1 / latest.reserve0 : ℚ) * NAD := by
    refine le_trans ?_ hspot
    rw [hstored.eq_fromNad]
    exact fromNad_le_self (calculateSpotPrice_nonneg _ _ _)
  have hadds := addsAtMost_of_le (clockWeight_mem emaPrice previous.seconds now) hlast hspot
  rw [getPoolInfo_eq rows latest now hema, Level]
  simp only [quotient_pos hreserve0, quotient_pos hreserve1, Option.mem_def, Option.some.injEq,
    exists_eq_left']
  rw [leavesAtLeast_iff, addsAtMost_iff, leavesAtLeast_iff, addsAtMost_iff]
  exact and_congr_left fun _ => and_iff_left hadds

/-- The law of the stored EMA holds exactly if the last value, which is read unscaled and
for both tokens, takes little enough from the spot prices and adds little enough to that
of token 1. -/
theorem ema_survives_iff (rows : List SwapRow) (latest previous : SwapRow) (now : ℤ)
    (emaPrice : ℚ) (hreserve0 : 0 < latest.reserve0) (hreserve1 : 0 < latest.reserve1)
    (hema : previous.emaPrice = some emaPrice) :
    let info := getPoolInfo (rows ++ [previous, latest]) now
    let price0 : ℚ := latest.reserve1 / latest.reserve0
    let price1 : ℚ := latest.reserve0 / latest.reserve1
    let weight := clockWeight emaPrice previous.seconds now
    (0 < emaPrice → (Between info emaPrice ↔
        LeavesAtLeast weight emaPrice (spotPrice0 latest) (min emaPrice price0))) ∧
      (StoredForConstant latest.reserve0 latest.reserve1 emaPrice → (Level info ↔
        LeavesAtLeast weight emaPrice (spotPrice0 latest) price0 ∧
          LeavesAtLeast weight emaPrice (spotPrice1 latest) price1 ∧
          AddsAtMost weight emaPrice (spotPrice1 latest) price1)) := by
  constructor
  · intro hpos
    exact between_iff rows now hreserve0 hema hpos
  · intro hstored
    exact level_iff rows now hreserve0 hreserve1 hema hstored

end Law

/-- Two swaps a minute apart that leave the reserves at 1 to 1. -/
def unmoved : List SwapRow :=
  [⟨1, 1, 1700000000000000, some 1⟩, ⟨1, 1, 1700000060000000, none⟩]

theorem storedForConstant_unmoved : StoredForConstant 1 1 1 := by
  refine ⟨FillEmaPrices.BATCH_SIZE, [(⟨1, 1, 1, 1700000000000000⟩, 1700000000)], by decide, ?_,
    ⟨1, 1⟩, by decide +kernel, rfl⟩
  intro reading hreading
  rw [List.mem_singleton.mp hreading]
  exact ⟨rfl, rfl⟩

/-- Six hours later the stored value has no weight left. -/
theorem ema_survives_iff_unmoved :
    Between (getPoolInfo unmoved 1700021600) 1 ∧ Level (getPoolInfo unmoved 1700021600) := by
  have hlaw := ema_survives_iff [] ⟨1, 1, 1700000060000000, none⟩
    ⟨1, 1, 1700000000000000, some 1⟩ 1700021600 1 (by decide) (by decide) rfl
  exact ⟨(hlaw.1 (by decide +kernel)).mpr (by decide +kernel),
    (hlaw.2 storedForConstant_unmoved).mpr (by decide +kernel)⟩

/-- A minute later the answer has the EMA 0.067013 for a price that was always 1. -/
theorem unmoved_price_lost :
    getPoolInfo unmoved 1700000060 =
        ⟨some 1, some 1, some (67013 / 1000000), some (67013 / 1000000), some 1, some 1,
          some 1700000060000000⟩ ∧
      ¬ Between (getPoolInfo unmoved 1700000060) 1 ∧ ¬ Level (getPoolInfo unmoved 1700000060) := by
  have hinfo : getPoolInfo unmoved 1700000060 = ⟨some 1, some 1, some (67013 / 1000000),
      some (67013 / 1000000), some 1, some 1, some 1700000060000000⟩ := by decide +kernel
  rw [hinfo]
  refine ⟨rfl, ?_, ?_⟩
  · rintro ⟨price, ⟨⟩, current, ⟨⟩, hlow, -⟩
    norm_num at hlow
  · rintro ⟨⟨price, ⟨⟩, current, ⟨⟩, hlow, -⟩, -⟩
    norm_num at hlow

end PoolInfo

end OmnipairIndexer
