/-
`computeEma` as a convex combination, for every half-life.

The weight of the last value comes out of a loop, a power and a reciprocal, each with a
`Math.floor`.  Every one of these keeps the order of its arguments, so the weight only
falls as the elapsed time grows, and the average moves from the last value towards the
input and never back.

The checked functions make the same steps and stop at a division by zero.  That they
never do is part of `computeEma_convex`.
-/
import OmnipairIndexer.Api.EmaCalculator

namespace OmnipairIndexer

namespace EmaCalculator

/-! ## Division by zero -/

/-- `Math.floor(a / b)`, when there is such a number. -/
def divide (a b : ℤ) : Option ℤ := if b = 0 then none else some (a / b)

def taylorSumChecked (reducedX scale : ℤ) : (count : ℕ) → (i term sum : ℤ) → Option ℤ
  | 0, _, _, sum => some sum
  | count + 1, i, term, sum => do
    let term ← divide (term * reducedX) (i * scale)
    if term = 0 then some sum
    else taylorSumChecked reducedX scale count (i + 1) term (sum + term)

def powerChecked (sum scale : ℤ) : (n : ℕ) → (result : ℤ) → Option ℤ
  | 0, result => some result
  | n + 1, result => do
    let result ← divide (result * sum) scale
    powerChecked sum scale n result

def taylorExpChecked (x scale : ℤ) (precision : ℕ) : Option ℤ := do
  let n := 10
  let reducedX ← divide |x| n
  let sum ← taylorSumChecked reducedX scale precision 1 scale scale
  let result ← powerChecked sum scale 10 scale
  if x < 0 then divide (scale * scale) result else some result

/-- `computeEma` on prices in whole NAD, with every division checked. -/
def computeEmaChecked (lastEma lastUpdate input halfLife currentTime : ℤ) : Option ℤ :=
  let dt := currentTime - lastUpdate
  if dt > 0 ∧ halfLife > 0 then do
    let expTime ← divide (halfLife * NAD) NATURAL_LOG_OF_TWO_NAD
    let x ← divide (dt * NAD) expTime
    let alpha ← taylorExpChecked (-x) NAD TAYLOR_TERMS
    divide (input * (NAD - alpha) + lastEma * alpha) NAD
  else some lastEma

theorem divide_of_pos {a b : ℤ} (hb : 0 < b) : divide a b = some (a / b) := if_neg hb.ne'

theorem taylorSumChecked_eq {scale : ℤ} (reducedX : ℤ) (hscale : 0 < scale) (count : ℕ) :
    ∀ {i term sum : ℤ}, 0 < i → taylorSumChecked reducedX scale count i term sum =
      some (taylorSum reducedX scale count i term sum) := by
  induction count with
  | zero => exact fun _ => rfl
  | succ count ih =>
    intro i term sum hi
    rw [taylorSumChecked, taylorSum, divide_of_pos (mul_pos hi hscale), Option.bind_eq_bind,
      Option.bind_some]
    split
    · rfl
    · exact ih (by omega)

theorem powerChecked_eq {scale : ℤ} (sum : ℤ) (hscale : 0 < scale) (n : ℕ) :
    ∀ result, powerChecked sum scale n result =
      some ((fun result => result * sum / scale)^[n] result) := by
  induction n with
  | zero => exact fun _ => rfl
  | succ n ih =>
    intro result
    rw [powerChecked, divide_of_pos hscale, Option.bind_eq_bind, Option.bind_some, ih,
      Function.iterate_succ_apply]

theorem taylorExpChecked_eq {scale : ℤ} (x : ℤ) (hscale : 0 < scale) (precision : ℕ) :
    taylorExpChecked x scale precision = some (taylorExp x scale precision) := by
  have hsum : scale ≤ taylorSum (|x| / 10) scale precision 1 scale scale :=
    le_taylorSum (Int.ediv_nonneg (abs_nonneg x) (by decide)) hscale precision (by decide)
      hscale.le
  have hresult : 0 < (fun result =>
      result * taylorSum (|x| / 10) scale precision 1 scale scale / scale)^[10] scale :=
    hscale.trans_le (le_iterate hscale hsum 10)
  simp only [taylorExpChecked, taylorExp, divide_of_pos (show (0 : ℤ) < 10 by decide),
    taylorSumChecked_eq _ hscale precision (show (0 : ℤ) < 1 by decide),
    powerChecked_eq _ hscale, divide_of_pos hresult, Option.bind_eq_bind, Option.bind_some]
  split <;> rfl

/-! ## The weight falls with the time -/

section Order

variable {x y scale : ℤ}

theorem taylorSum_mono (hx : 0 ≤ x) (hxy : x ≤ y) (hscale : 0 < scale) (count : ℕ) :
    ∀ {i term term' sum sum' : ℤ}, 0 < i → 0 ≤ term → term ≤ term' → sum ≤ sum' →
      taylorSum x scale count i term sum ≤ taylorSum y scale count i term' sum' := by
  induction count with
  | zero => exact fun _ _ _ hsum => hsum
  | succ count ih =>
    intro i term term' sum sum' hi hterm hle hsum
    have hdivisor : 0 < i * scale := mul_pos hi hscale
    have hnonneg : 0 ≤ term * x / (i * scale) :=
      Int.ediv_nonneg (mul_nonneg hterm hx) hdivisor.le
    have hnext : term * x / (i * scale) ≤ term' * y / (i * scale) :=
      Int.ediv_le_ediv hdivisor (mul_le_mul hle hxy hx (hterm.trans hle))
    by_cases hzero : term * x / (i * scale) = 0
    · -- the loop for the smaller exponent ends, and the other one only adds
      have hleft : taylorSum x scale (count + 1) i term sum = sum := by
        rw [taylorSum, if_pos hzero]
      rw [hleft]
      exact hsum.trans (le_taylorSum (hx.trans hxy) hscale _ hi (hterm.trans hle))
    · have hzero' : term' * y / (i * scale) ≠ 0 := by omega
      rw [taylorSum, taylorSum, if_neg hzero, if_neg hzero']
      exact ih (by omega) hnonneg hnext (by omega)

theorem iterate_mono {sum sum' : ℤ} (hscale : 0 < scale) (hsum : scale ≤ sum)
    (hle : sum ≤ sum') (n : ℕ) :
    (fun result => result * sum / scale)^[n] scale ≤
      (fun result => result * sum' / scale)^[n] scale := by
  induction n with
  | zero => exact le_rfl
  | succ n ih =>
    have hleast : scale ≤ (fun result => result * sum / scale)^[n] scale :=
      le_iterate hscale hsum n
    rw [Function.iterate_succ_apply', Function.iterate_succ_apply']
    refine Int.ediv_le_ediv hscale (mul_le_mul ih hle (hscale.le.trans hsum) ?_)
    exact (hscale.le.trans hleast).trans ih

theorem ediv_le_ediv_of_divisor_le {a b c : ℤ} (ha : 0 ≤ a) (hb : 0 < b) (hbc : b ≤ c) :
    a / c ≤ a / b := by
  rw [Int.le_ediv_iff_mul_le hb]
  calc a / c * b ≤ a / c * c :=
        mul_le_mul_of_nonneg_left hbc (Int.ediv_nonneg ha (hb.le.trans hbc))
    _ ≤ a := Int.ediv_mul_le a (hb.trans_le hbc).ne'

theorem taylorExp_antitone_neg (hx : 0 < x) (hxy : x ≤ y) (hscale : 0 < scale)
    (precision : ℕ) : taylorExp (-y) scale precision ≤ taylorExp (-x) scale precision := by
  have habs : |-x| = x := by rw [abs_neg, abs_of_pos hx]
  have habs' : |-y| = y := by rw [abs_neg, abs_of_pos (hx.trans_le hxy)]
  have hreduced : 0 ≤ x / 10 := Int.ediv_nonneg hx.le (by decide)
  have hreducedLe : x / 10 ≤ y / 10 := Int.ediv_le_ediv (by decide) hxy
  have hleast : scale ≤ taylorSum (x / 10) scale precision 1 scale scale :=
    le_taylorSum hreduced hscale precision (by decide) hscale.le
  have hsum : taylorSum (x / 10) scale precision 1 scale scale ≤
      taylorSum (y / 10) scale precision 1 scale scale :=
    taylorSum_mono hreduced hreducedLe hscale precision (by decide) hscale.le le_rfl le_rfl
  have hpower := iterate_mono hscale hleast hsum 10
  simp only [taylorExp, habs, habs', if_pos (neg_neg_of_pos hx),
    if_pos (neg_neg_of_pos (hx.trans_le hxy))]
  exact ediv_le_ediv_of_divisor_le (mul_pos hscale hscale).le
    (hscale.trans_le (le_iterate hscale hleast 10)) hpower

end Order

theorem taylorExp_zero : taylorExp (-0) NAD TAYLOR_TERMS = NAD := by decide +kernel

theorem taylorExp_mem {x : ℤ} (hx : 0 ≤ x) :
    0 ≤ taylorExp (-x) NAD TAYLOR_TERMS ∧ taylorExp (-x) NAD TAYLOR_TERMS ≤ NAD := by
  rcases hx.eq_or_lt with rfl | hpos
  · rw [taylorExp_zero]
    exact ⟨NAD_pos.le, le_rfl⟩
  · exact taylorExp_neg (neg_neg_of_pos hpos) NAD_pos TAYLOR_TERMS

theorem taylorExp_antitone {x y : ℤ} (hx : 0 ≤ x) (hxy : x ≤ y) :
    taylorExp (-y) NAD TAYLOR_TERMS ≤ taylorExp (-x) NAD TAYLOR_TERMS := by
  rcases hx.eq_or_lt with rfl | hpos
  · rw [taylorExp_zero]
    exact (taylorExp_mem hxy).2
  · exact taylorExp_antitone_neg hpos hxy NAD_pos TAYLOR_TERMS

/-- The time that the half-life gives to the base e, in seconds. -/
def expTime (halfLife : ℤ) : ℤ := halfLife * NAD / NATURAL_LOG_OF_TWO_NAD

/-- The elapsed time over `expTime`, in NAD. -/
def exponent (halfLife dt : ℤ) : ℤ := dt * NAD / expTime halfLife

/-- The weight that the last value keeps after `dt` seconds. -/
def weight (halfLife dt : ℤ) : ℤ := taylorExp (-exponent halfLife dt) NAD TAYLOR_TERMS

section Weight

variable {halfLife dt dt' : ℤ}

theorem expTime_pos (hhalf : 1 ≤ halfLife) : 0 < expTime halfLife := by
  rw [expTime, NAD, NATURAL_LOG_OF_TWO_NAD]
  omega

theorem exponent_nonneg (hhalf : 1 ≤ halfLife) (hdt : 0 < dt) : 0 ≤ exponent halfLife dt :=
  Int.ediv_nonneg (mul_pos hdt NAD_pos).le (expTime_pos hhalf).le

theorem weight_mem (hhalf : 1 ≤ halfLife) (hdt : 0 < dt) :
    0 ≤ weight halfLife dt ∧ weight halfLife dt ≤ NAD :=
  taylorExp_mem (exponent_nonneg hhalf hdt)

theorem weight_antitone (hhalf : 1 ≤ halfLife) (hdt : 0 < dt) (hle : dt ≤ dt') :
    weight halfLife dt' ≤ weight halfLife dt := by
  refine taylorExp_antitone (exponent_nonneg hhalf hdt) (Int.ediv_le_ediv (expTime_pos hhalf) ?_)
  exact mul_le_mul_of_nonneg_right hle NAD_pos.le

/-! ## The average -/

variable {lastUpdate currentTime : ℤ}

/-- The average after `dt` seconds. -/
def average (lastEma input halfLife dt : ℤ) : ℤ :=
  (input * (NAD - weight halfLife dt) + lastEma * weight halfLife dt) / NAD

theorem floor_div_NAD (n : ℤ) : ⌊(n : ℚ) / NAD⌋ = n / NAD :=
  Rat.floor_intCast_div_natCast n 1000000000

theorem computeEma_average (lastEma input : ℤ) (hhalf : 1 ≤ halfLife)
    (htime : lastUpdate < currentTime) :
    computeEma lastEma lastUpdate input halfLife currentTime =
      average lastEma input halfLife (currentTime - lastUpdate) := by
  have hdt : currentTime - lastUpdate > 0 ∧ halfLife > 0 := by omega
  rw [computeEma, if_pos hdt, average, ← floor_div_NAD]
  simp only [weight, exponent, expTime]
  push_cast
  rfl

theorem computeEmaChecked_average (lastEma input : ℤ) (hhalf : 1 ≤ halfLife)
    (htime : lastUpdate < currentTime) :
    computeEmaChecked lastEma lastUpdate input halfLife currentTime =
      some (average lastEma input halfLife (currentTime - lastUpdate)) := by
  have hdt : currentTime - lastUpdate > 0 ∧ halfLife > 0 := by omega
  have hlog : 0 < NATURAL_LOG_OF_TWO_NAD := by decide
  have hexp : 0 < halfLife * NAD / NATURAL_LOG_OF_TWO_NAD := expTime_pos hhalf
  rw [computeEmaChecked, if_pos hdt]
  simp only [divide_of_pos hlog, divide_of_pos hexp, taylorExpChecked_eq _ NAD_pos,
    divide_of_pos NAD_pos, Option.bind_eq_bind, Option.bind_some]
  rfl

section Average

variable {lastEma input bound : ℤ}

theorem le_average (hhalf : 1 ≤ halfLife) (hdt : 0 < dt) (hlast : bound ≤ lastEma)
    (hinput : bound ≤ input) : bound ≤ average lastEma input halfLife dt := by
  obtain ⟨hnonneg, hle⟩ := weight_mem hhalf hdt
  rw [average, Int.le_ediv_iff_mul_le NAD_pos]
  calc bound * NAD
      = bound * (NAD - weight halfLife dt) + bound * weight halfLife dt := by ring
    _ ≤ input * (NAD - weight halfLife dt) + lastEma * weight halfLife dt :=
        add_le_add (mul_le_mul_of_nonneg_right hinput (sub_nonneg.mpr hle))
          (mul_le_mul_of_nonneg_right hlast hnonneg)

theorem average_le (hhalf : 1 ≤ halfLife) (hdt : 0 < dt) (hlast : lastEma ≤ bound)
    (hinput : input ≤ bound) : average lastEma input halfLife dt ≤ bound := by
  obtain ⟨hnonneg, hle⟩ := weight_mem hhalf hdt
  refine Int.ediv_le_of_le_mul NAD_pos ?_
  calc input * (NAD - weight halfLife dt) + lastEma * weight halfLife dt
      ≤ bound * (NAD - weight halfLife dt) + bound * weight halfLife dt :=
        add_le_add (mul_le_mul_of_nonneg_right hinput (sub_nonneg.mpr hle))
          (mul_le_mul_of_nonneg_right hlast hnonneg)
    _ = bound * NAD := by ring

/-- With more time the average stands nearer to the input, on the same side of it. -/
theorem average_towards (hhalf : 1 ≤ halfLife) (hdt : 0 < dt) (hle : dt ≤ dt') :
    |average lastEma input halfLife dt' - input| ≤ |average lastEma input halfLife dt - input| := by
  have hweight := weight_antitone hhalf hdt hle
  have hdt' := hdt.trans_le hle
  rcases le_total input lastEma with hside | hside
  · have hbound := le_average hhalf hdt' hside le_rfl
    have hmono : average lastEma input halfLife dt' ≤ average lastEma input halfLife dt := by
      refine Int.ediv_le_ediv NAD_pos ?_
      have hmul := mul_le_mul_of_nonneg_right hweight (sub_nonneg.mpr hside)
      linarith
    rw [abs_of_nonneg (sub_nonneg.mpr hbound), abs_of_nonneg (by omega)]
    omega
  · have hbound := average_le hhalf hdt' hside le_rfl
    have hmono : average lastEma input halfLife dt ≤ average lastEma input halfLife dt' := by
      refine Int.ediv_le_ediv NAD_pos ?_
      have hmul := mul_le_mul_of_nonneg_right hweight (sub_nonneg.mpr hside)
      linarith
    rw [abs_of_nonpos (sub_nonpos.mpr hbound), abs_of_nonpos (by omega)]
    omega

end Average

/-- For whole prices no step divides by zero, the weight is one, the result stands between
the last value and the input, and it comes no less near to the input when more time has
passed. -/
theorem computeEma_convex (lastEma input halfLife lastUpdate currentTime : ℤ)
    (hhalf : 1 ≤ halfLife) (htime : lastUpdate < currentTime) :
    ∃ result : ℤ,
      computeEma lastEma lastUpdate input halfLife currentTime = result ∧
      computeEmaChecked lastEma lastUpdate input halfLife currentTime = some result ∧
      0 ≤ taylorExp (-exponent halfLife (currentTime - lastUpdate)) NAD TAYLOR_TERMS ∧
      taylorExp (-exponent halfLife (currentTime - lastUpdate)) NAD TAYLOR_TERMS ≤ NAD ∧
      min lastEma input ≤ result ∧ result ≤ max lastEma input ∧
      ∀ lastUpdate' currentTime', currentTime - lastUpdate ≤ currentTime' - lastUpdate' →
        ∃ result' : ℤ,
          computeEma lastEma lastUpdate' input halfLife currentTime' = result' ∧
          |result' - input| ≤ |result - input| := by
  have hdt : 0 < currentTime - lastUpdate := by omega
  refine ⟨average lastEma input halfLife (currentTime - lastUpdate),
    computeEma_average lastEma input hhalf htime,
    computeEmaChecked_average lastEma input hhalf htime,
    (weight_mem hhalf hdt).1, (weight_mem hhalf hdt).2,
    le_average hhalf hdt (min_le_left _ _) (min_le_right _ _),
    average_le hhalf hdt (le_max_left _ _) (le_max_right _ _), ?_⟩
  intro lastUpdate' currentTime' hlonger
  exact ⟨_, computeEma_average lastEma input hhalf (by omega),
    average_towards hhalf hdt hlonger⟩

/-- One second, where a price of 2 has been and the spot price is 1. -/
theorem computeEma_convex_oneSecond :
    ∃ result : ℤ, computeEmaChecked (2 * NAD) 100 NAD DEFAULT_HALF_LIFE 101 = some result ∧
      NAD ≤ result ∧ result ≤ 2 * NAD := by
  obtain ⟨result, -, hchecked, -, -, hmin, hmax, -⟩ :=
    computeEma_convex (2 * NAD) NAD DEFAULT_HALF_LIFE 100 101 (by decide) (by decide)
  exact ⟨result, hchecked, hmin.trans' (by decide), hmax.trans (by decide)⟩

end Weight

end EmaCalculator

end OmnipairIndexer
