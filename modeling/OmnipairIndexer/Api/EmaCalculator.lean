/-
`emaCalculator`: the exponential moving average of a price, in fixed point.

A price in NAD is an integer, the price times 10^9.  The numbers of the program are
exact here: `/` on integers is the `Math.floor` of a quotient, and a price that is not
in NAD is a rational.

A step of the average keeps a weight of the last value and gives the rest to the spot
price.  The weight only depends on the seconds that have passed, and `micros_computeEma`
says what is read after a step in terms of it.
-/
import Mathlib.Algebra.Order.Field.Rat
import Mathlib.Data.Rat.Floor
import Mathlib.Tactic.Linarith
import Mathlib.Tactic.Ring
import Mathlib.Tactic.FieldSimp
import Mathlib.Tactic.Positivity

namespace OmnipairIndexer

namespace EmaCalculator

def NAD : ℤ := 1000000000

def TAYLOR_TERMS : ℕ := 5

/-- ln 2 in NAD. -/
def NATURAL_LOG_OF_TWO_NAD : ℤ := 693147180

/-- Ten minutes, in seconds. -/
def DEFAULT_HALF_LIFE : ℤ := 10 * 60

/-- The loop over the terms from the `i`-th on; `count` of them are left. -/
def taylorSum (reducedX scale : ℤ) : (count : ℕ) → (i term sum : ℤ) → ℤ
  | 0, _, _, sum => sum
  | count + 1, i, term, sum =>
    let term := term * reducedX / (i * scale)
    if term = 0 then sum else taylorSum reducedX scale count (i + 1) term (sum + term)

def taylorExp (x scale : ℤ) (precision : ℕ) : ℤ :=
  let n := 10
  let reducedX := |x| / n
  let sum := taylorSum reducedX scale precision 1 scale scale
  let result := (fun result => result * sum / scale)^[10] scale
  if x < 0 then scale * scale / result else result

def computeEma (lastEma : ℚ) (lastUpdate : ℤ) (input : ℚ) (halfLife currentTime : ℤ) : ℚ :=
  let dt := currentTime - lastUpdate
  if dt > 0 ∧ halfLife > 0 then
    let expTime := halfLife * NAD / NATURAL_LOG_OF_TWO_NAD
    let x := dt * NAD / expTime
    let alpha := taylorExp (-x) NAD TAYLOR_TERMS
    ⌊(input * (NAD - alpha) + lastEma * alpha) / NAD⌋
  else lastEma

/-- The price of token 0 in token 1, or the other way round. -/
def calculateSpotPrice (reserve0 reserve1 : ℕ) (price0 : Bool) : ℤ :=
  if price0 then
    if reserve0 = 0 then 0 else reserve1 * NAD / reserve0
  else if reserve1 = 0 then 0 else reserve0 * NAD / reserve1

/-- `toFixed(6)` takes the nearest number with six decimals, the larger of two.  A price
of 64-bit reserves is not negative and below 10^21, where `toFixed` ends. -/
def fromNad (nadValue : ℚ) : ℚ := ⌊nadValue / NAD * 10 ^ 6 + 1 / 2⌋ / 10 ^ 6

structure EmaUpdateResult where
  price0Ema : ℚ
  price1Ema : ℚ
  spotPrice0 : ℤ
  spotPrice1 : ℤ
  timestamp : ℤ
  deriving DecidableEq

/-- A last value that is given and truthy. -/
def initialEma (lastEma : Option ℚ) (spotPrice : ℤ) : ℚ :=
  match lastEma with
  | none => spotPrice
  | some lastEma => if lastEma = 0 then spotPrice else lastEma

/-- `lastUpdate || currentTime`. -/
def lastUpdateTime (lastUpdate : Option ℤ) (currentTime : ℤ) : ℤ :=
  match lastUpdate with
  | none => currentTime
  | some lastUpdate => if lastUpdate = 0 then currentTime else lastUpdate

/-- `now` is the clock in whole seconds. -/
def calculateEmaFromPoolData (reserve0 reserve1 : ℕ) (lastPrice0Ema lastPrice1Ema : Option ℚ)
    (lastUpdate : Option ℤ) (now : ℤ) : EmaUpdateResult :=
  let spotPrice0 := calculateSpotPrice reserve0 reserve1 true
  let spotPrice1 := calculateSpotPrice reserve0 reserve1 false
  let calculate := fun lastEma spotPrice => computeEma (initialEma lastEma spotPrice)
    (lastUpdateTime lastUpdate now) spotPrice DEFAULT_HALF_LIFE now
  { price0Ema := calculate lastPrice0Ema spotPrice0
    price1Ema := calculate lastPrice1Ema spotPrice1
    spotPrice0 := spotPrice0
    spotPrice1 := spotPrice1
    timestamp := now }

/-! ## The weight of the last value -/

theorem NAD_pos : 0 < NAD := by decide

/-- The weight that a step keeps for the last value, in NAD. -/
def alpha (dt : ℤ) : ℤ :=
  if dt > 0 then
    taylorExp (-(dt * NAD / (DEFAULT_HALF_LIFE * NAD / NATURAL_LOG_OF_TWO_NAD))) NAD TAYLOR_TERMS
  else NAD

section Taylor

variable {reducedX scale : ℤ}

theorem le_taylorSum (hx : 0 ≤ reducedX) (hscale : 0 < scale) (count : ℕ) :
    ∀ {i term sum : ℤ}, 0 < i → 0 ≤ term → sum ≤ taylorSum reducedX scale count i term sum := by
  induction count with
  | zero => exact fun _ _ => le_rfl
  | succ count ih =>
    intro i term sum hi hterm
    have hnext : 0 ≤ term * reducedX / (i * scale) :=
      Int.ediv_nonneg (mul_nonneg hterm hx) (mul_pos hi hscale).le
    rw [taylorSum]
    by_cases hzero : term * reducedX / (i * scale) = 0
    · simp only [hzero, if_true, le_refl]
    · simp only [hzero, if_false]
      have hrest := @ih (i + 1) (term * reducedX / (i * scale))
        (sum + term * reducedX / (i * scale)) (by omega) hnext
      omega

theorem le_iterate {sum : ℤ} (hscale : 0 < scale) (hsum : scale ≤ sum) (n : ℕ) :
    scale ≤ (fun result => result * sum / scale)^[n] scale := by
  induction n with
  | zero => exact le_rfl
  | succ n ih =>
    rw [Function.iterate_succ_apply']
    refine ih.trans ((Int.le_ediv_iff_mul_le hscale).mpr ?_)
    exact mul_le_mul_of_nonneg_left hsum (hscale.le.trans ih)

/-- The exponential of a negative number is a weight. -/
theorem taylorExp_neg {x : ℤ} (hx : x < 0) (hscale : 0 < scale) (precision : ℕ) :
    0 ≤ taylorExp x scale precision ∧ taylorExp x scale precision ≤ scale := by
  have hsum : scale ≤ taylorSum (|x| / 10) scale precision 1 scale scale :=
    le_taylorSum (Int.ediv_nonneg (abs_nonneg x) (by decide)) hscale precision (by decide)
      hscale.le
  have hresult := le_iterate hscale hsum 10
  simp only [taylorExp, if_pos hx]
  refine ⟨Int.ediv_nonneg (mul_pos hscale hscale).le (hscale.le.trans hresult), ?_⟩
  refine Int.ediv_le_of_le_mul (hscale.trans_le hresult) ?_
  exact mul_le_mul_of_nonneg_left hresult hscale.le

end Taylor

theorem alpha_mem (dt : ℤ) : 0 ≤ alpha dt ∧ alpha dt ≤ NAD := by
  unfold alpha
  split
  · rename_i hdt
    have hx : 0 < dt * NAD / (DEFAULT_HALF_LIFE * NAD / NATURAL_LOG_OF_TWO_NAD) := by
      have hexp : DEFAULT_HALF_LIFE * NAD / NATURAL_LOG_OF_TWO_NAD = 865 := by decide
      rw [hexp, NAD]
      omega
    exact taylorExp_neg (neg_neg_of_pos hx) NAD_pos TAYLOR_TERMS
  · exact ⟨NAD_pos.le, le_rfl⟩

theorem calculateSpotPrice_nonneg (reserve0 reserve1 : ℕ) (price0 : Bool) :
    0 ≤ calculateSpotPrice reserve0 reserve1 price0 := by
  have hquotient : ∀ a b : ℕ, 0 ≤ (a : ℤ) * NAD / b := fun a b =>
    Int.ediv_nonneg (mul_nonneg (Int.natCast_nonneg a) NAD_pos.le) (Int.natCast_nonneg b)
  unfold calculateSpotPrice
  split <;> split <;> first | exact le_rfl | exact hquotient _ _

/-! ## A step of the average -/

/-- The last value with weight `alpha` and the spot price with the rest. -/
def blend (lastEma input : ℚ) (alpha : ℤ) : ℚ := (input * (NAD - alpha) + lastEma * alpha) / NAD

theorem computeEma_eq (lastEma input : ℚ) (lastUpdate currentTime : ℤ) :
    computeEma lastEma lastUpdate input DEFAULT_HALF_LIFE currentTime =
      if currentTime - lastUpdate > 0 then
        (⌊blend lastEma input (alpha (currentTime - lastUpdate))⌋ : ℚ)
      else lastEma := by
  have hhalf : DEFAULT_HALF_LIFE > 0 := by decide
  by_cases hdt : currentTime - lastUpdate > 0
  · simp only [computeEma, blend, alpha, hdt, hhalf, and_self, if_true]
  · simp only [computeEma, hdt, false_and, if_false]

section Blend

variable {lastEma input bound : ℚ} {weight : ℤ}

theorem NAD_cast_pos : (0 : ℚ) < NAD := by exact_mod_cast NAD_pos

theorem blend_eq_sub (lastEma input : ℚ) (weight : ℤ) :
    blend lastEma input weight = input - weight * (input - lastEma) / NAD := by
  have hne : (NAD : ℚ) ≠ 0 := NAD_cast_pos.ne'
  rw [blend]
  field_simp
  ring

theorem blend_self (input : ℚ) (weight : ℤ) : blend input input weight = input := by
  rw [blend_eq_sub, sub_self, mul_zero, zero_div, sub_zero]

theorem blend_NAD (lastEma input : ℚ) : blend lastEma input NAD = lastEma := by
  rw [blend_eq_sub, mul_div_right_comm, div_self NAD_cast_pos.ne', one_mul, sub_sub_cancel]

theorem blend_zero (lastEma input : ℚ) : blend lastEma input 0 = input := by
  rw [blend_eq_sub, Int.cast_zero, zero_mul, zero_div, sub_zero]

theorem le_blend_iff :
    bound ≤ blend lastEma input weight ↔ weight * (input - lastEma) ≤ NAD * (input - bound) := by
  rw [blend_eq_sub, le_sub_comm, div_le_iff₀ NAD_cast_pos, mul_comm (input - bound)]

theorem blend_lt_iff :
    blend lastEma input weight < bound ↔ weight * (lastEma - input) < NAD * (bound - input) := by
  rw [← not_le, le_blend_iff, not_le, ← neg_sub input lastEma, ← neg_sub input bound, mul_neg,
    mul_neg, neg_lt_neg_iff]

theorem blend_le (hweight : 0 ≤ weight ∧ weight ≤ NAD) (hlast : lastEma ≤ bound)
    (hinput : input ≤ bound) : blend lastEma input weight ≤ bound := by
  have hnonneg : (0 : ℚ) ≤ weight := by exact_mod_cast hweight.1
  have hle : (weight : ℚ) ≤ NAD := by exact_mod_cast hweight.2
  rw [blend, div_le_iff₀ NAD_cast_pos]
  have h1 := mul_le_mul_of_nonneg_right hinput (sub_nonneg.mpr hle)
  have h2 := mul_le_mul_of_nonneg_right hlast hnonneg
  linarith

end Blend

/-! ## Reading a value back -/

/-- The multiple of 10^-6 that `fromNad` rounds to. -/
def micros (nadValue : ℚ) : ℤ := ⌊nadValue / 1000 + 1 / 2⌋

theorem fromNad_eq (nadValue : ℚ) : fromNad nadValue = micros nadValue / 10 ^ 6 := by
  have hscale : nadValue / NAD * 10 ^ 6 = nadValue / 1000 := by
    rw [show (NAD : ℚ) = 1000 * 10 ^ 6 by norm_num [NAD]]
    field_simp
  rw [fromNad, micros, hscale]

theorem le_micros_iff {z : ℤ} {nadValue : ℚ} :
    z ≤ micros nadValue ↔ 1000 * (z : ℚ) - 500 ≤ nadValue := by
  rw [micros, Int.le_floor]
  constructor <;> intro h <;> linarith

theorem micros_lt_iff {z : ℤ} {nadValue : ℚ} :
    micros nadValue < z ↔ nadValue < 1000 * (z : ℚ) - 500 := by
  rw [← not_le, le_micros_iff, not_le]

/-- Rounding to six decimals forgets what `Math.floor` has dropped. -/
theorem micros_floor (nadValue : ℚ) : micros (⌊nadValue⌋ : ℚ) = micros nadValue := by
  refine eq_of_forall_le_iff fun z => ?_
  rw [le_micros_iff, le_micros_iff]
  have hcast : 1000 * (z : ℚ) - 500 = ((1000 * z - 500 : ℤ) : ℚ) := by push_cast; ring
  rw [hcast, Int.cast_le, Int.le_floor]

theorem fromNad_le_self {spotPrice : ℤ} (h : 0 ≤ spotPrice) :
    fromNad spotPrice ≤ spotPrice := by
  have hmicros : micros spotPrice < 1000000 * spotPrice + 1 := by
    have hnonneg : (0 : ℚ) ≤ spotPrice := by exact_mod_cast h
    rw [micros_lt_iff]
    push_cast
    linarith
  have hle : (micros spotPrice : ℚ) ≤ 1000000 * spotPrice := by
    have : micros spotPrice ≤ 1000000 * spotPrice := by omega
    exact_mod_cast this
  rw [fromNad_eq, div_le_iff₀ (by norm_num)]
  linarith

/-- What is read after a step. -/
theorem micros_computeEma (lastEma input : ℚ) (lastUpdate currentTime : ℤ) :
    micros (computeEma lastEma lastUpdate input DEFAULT_HALF_LIFE currentTime) =
      micros (blend lastEma input (alpha (currentTime - lastUpdate))) := by
  rw [computeEma_eq]
  by_cases hdt : currentTime - lastUpdate > 0
  · rw [if_pos hdt, micros_floor]
  · rw [if_neg hdt, alpha, if_neg hdt, blend_NAD]

/-- The weight of a last value that is read back: a value or a time of 0 is falsy. -/
def clockWeight (lastEma : ℚ) (lastUpdate now : ℤ) : ℤ :=
  if lastEma = 0 then 0 else if lastUpdate = 0 then NAD else alpha (now - lastUpdate)

theorem clockWeight_mem (lastEma : ℚ) (lastUpdate now : ℤ) :
    0 ≤ clockWeight lastEma lastUpdate now ∧ clockWeight lastEma lastUpdate now ≤ NAD := by
  unfold clockWeight
  split
  · exact ⟨le_rfl, NAD_pos.le⟩
  · split
    · exact ⟨NAD_pos.le, le_rfl⟩
    · exact alpha_mem _

/-- The falsy values are as good as these weights. -/
theorem blend_initialEma (lastEma : ℚ) (lastUpdate now spotPrice : ℤ) :
    blend (initialEma (some lastEma) spotPrice) spotPrice
        (alpha (now - lastUpdateTime (some lastUpdate) now)) =
      blend lastEma spotPrice (clockWeight lastEma lastUpdate now) := by
  unfold initialEma lastUpdateTime clockWeight
  by_cases hlast : lastEma = 0
  · simp only [if_pos hlast, blend_self, blend_zero]
  · by_cases hupdate : lastUpdate = 0
    · simp only [if_neg hlast, if_pos hupdate, sub_self, alpha, gt_iff_lt, lt_irrefl, if_false]
    · simp only [if_neg hlast, if_neg hupdate]

/-! ## A price that stays -/

/-- A price is its own average. -/
theorem computeEma_self (spotPrice lastUpdate currentTime : ℤ) :
    computeEma spotPrice lastUpdate spotPrice DEFAULT_HALF_LIFE currentTime = spotPrice := by
  rw [computeEma_eq, blend_self, Int.floor_intCast, ite_self]

theorem initialEma_self (spotPrice : ℤ) : initialEma (some spotPrice) spotPrice = spotPrice :=
  ite_self _

end EmaCalculator

end OmnipairIndexer
