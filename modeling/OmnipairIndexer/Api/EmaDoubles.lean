/-
`emaCalculator` in the numbers of the program.

The functions are those of `EmaCalculator`, and every result is rounded to the nearest
double, `fl`.  The numbers are not negative, but for the exponent of `taylorExp`, which is
only compared and made positive.  Times are whole seconds that doubles hold exactly.  The
exponent of a double has no bound here: a power that is infinite in the program leaves a
weight of 0 in both.

A step rounds several times, so that an average of equal values can differ from them.
What a step does depends on the time only through `weight`, and `weight_of_fromNad_fall`
says that a fall from a high price shows the weight in the six decimals that are read.
-/
import OmnipairIndexer.Api.EmaCalculator
import OmnipairIndexer.Library.Binary64

namespace OmnipairIndexer

namespace EmaDoubles

open Binary64 renaming round → fl, round_natCast → fl_natCast,
  natCast_le_floor_round → natCast_le_floor_fl
open Binary64 (Within le_round round_dyadic round_nonneg within_round unit)
open EmaCalculator (NAD TAYLOR_TERMS NATURAL_LOG_OF_TWO_NAD DEFAULT_HALF_LIFE EmaUpdateResult
  initialEma lastUpdateTime)

/-- The loop over the terms from the `i`-th on; `count` of them are left. -/
def taylorSum (reducedX scale : ℚ) : (count : ℕ) → (i term sum : ℚ) → ℚ
  | 0, _, _, sum => sum
  | count + 1, i, term, sum =>
    let term : ℚ := ⌊fl (fl (term * reducedX) / fl (i * scale))⌋
    if term = 0 then sum else taylorSum reducedX scale count (i + 1) term (fl (sum + term))

def taylorExp (x scale : ℚ) (precision : ℕ) : ℚ :=
  let n := 10
  let reducedX : ℚ := ⌊fl (|x| / n)⌋
  let sum := taylorSum reducedX scale precision 1 scale scale
  let result := (fun result : ℚ => (⌊fl (fl (result * sum) / scale)⌋ : ℚ))^[10] scale
  if x < 0 then ⌊fl (fl (scale * scale) / result)⌋ else result

def computeEma (lastEma : ℚ) (lastUpdate : ℤ) (input : ℚ) (halfLife currentTime : ℤ) : ℚ :=
  let dt := currentTime - lastUpdate
  if dt > 0 ∧ halfLife > 0 then
    let expTime : ℚ := ⌊fl (fl (halfLife * NAD) / NATURAL_LOG_OF_TWO_NAD)⌋
    let x : ℚ := ⌊fl (fl (dt * NAD) / expTime)⌋
    let alpha := taylorExp (-x) NAD TAYLOR_TERMS
    ⌊fl (fl (fl (input * fl (NAD - alpha)) + fl (lastEma * alpha)) / NAD)⌋
  else lastEma

def calculateSpotPrice (reserve0 reserve1 : ℚ) (price0 : Bool) : ℤ :=
  if price0 then
    if reserve0 = 0 then 0 else ⌊fl (fl (reserve1 * NAD) / reserve0)⌋
  else if reserve1 = 0 then 0 else ⌊fl (fl (reserve0 * NAD) / reserve1)⌋

/-- `Number((nadValue / NAD).toFixed(6))`.  `toFixed` takes the nearest number with six
decimals, the larger of two, and leaves a number from 10^21 on as it is. -/
def fromNad (nadValue : ℚ) : ℚ :=
  let price := fl (nadValue / NAD)
  if price < 10 ^ 21 then fl (⌊price * 10 ^ 6 + 1 / 2⌋ / 10 ^ 6) else price

/-- `now` is the clock in whole seconds, and `parseFloat` of a reserve the nearest double. -/
def calculateEmaFromPoolData (reserve0 reserve1 : ℕ) (lastPrice0Ema lastPrice1Ema : Option ℚ)
    (lastUpdate : Option ℤ) (now : ℤ) : EmaUpdateResult :=
  let r0 := fl reserve0
  let r1 := fl reserve1
  let spotPrice0 := calculateSpotPrice r0 r1 true
  let spotPrice1 := calculateSpotPrice r0 r1 false
  let calculate := fun lastEma spotPrice => computeEma (initialEma lastEma spotPrice)
    (lastUpdateTime lastUpdate now) spotPrice DEFAULT_HALF_LIFE now
  { price0Ema := calculate lastPrice0Ema spotPrice0
    price1Ema := calculate lastPrice1Ema spotPrice1
    spotPrice0 := spotPrice0
    spotPrice1 := spotPrice1
    timestamp := now }

/-! ## The weight of the last value -/

/-- The weight that a step keeps for the last value, in NAD; a step in no time keeps the
value itself. -/
def weight (dt : ℤ) : Option ℚ :=
  if dt > 0 then
    let expTime : ℚ := ⌊fl (fl (DEFAULT_HALF_LIFE * NAD) / NATURAL_LOG_OF_TWO_NAD)⌋
    let x : ℚ := ⌊fl (fl (dt * NAD) / expTime)⌋
    some (taylorExp (-x) NAD TAYLOR_TERMS)
  else none

/-- The last value with its weight and the spot price with the rest. -/
def blend (lastEma input : ℚ) : Option ℚ → ℚ
  | none => lastEma
  | some weight => ⌊fl (fl (fl (input * fl (NAD - weight)) + fl (lastEma * weight)) / NAD)⌋

theorem computeEma_eq (lastEma input : ℚ) (lastUpdate currentTime : ℤ) :
    computeEma lastEma lastUpdate input DEFAULT_HALF_LIFE currentTime =
      blend lastEma input (weight (currentTime - lastUpdate)) := by
  have hhalf : DEFAULT_HALF_LIFE > 0 := by decide
  by_cases hdt : currentTime - lastUpdate > 0
  · simp only [computeEma, blend, weight, hdt, hhalf, and_self, if_true]
  · simp only [computeEma, blend, weight, hdt, false_and, if_false]

/-- After 62 seconds the average of this price with itself is one less. -/
example : computeEma 9967964500 0 9967964500 DEFAULT_HALF_LIFE 62 = 9967964499 := by
  decide +kernel

theorem NAD_eq : (NAD : ℚ) = 1000000000 := by norm_num [NAD]

theorem NAD_pos : (0 : ℚ) < NAD := by norm_num [NAD]

/-- A price of few enough units is exact in NAD. -/
theorem fl_mul_NAD {m : ℕ} (hm : m ≤ 4000000000) : fl (m * NAD) = m * NAD := by
  have hsplit : (m * NAD : ℚ) = (m * 1953125 : ℕ) * 2 ^ 9 := by
    rw [NAD_eq]
    push_cast
    ring
  rw [hsplit, round_dyadic (by omega)]

/-- `Math.floor` of a quotient by NAD, from below. -/
theorem le_floor_div_NAD {m : ℕ} {a : ℚ} (hm : m ≤ 4000000000) (h : m * NAD ≤ a) :
    (m : ℚ) ≤ ⌊fl (fl a / NAD)⌋ := by
  have hnonneg : (0 : ℚ) ≤ m := Nat.cast_nonneg m
  have hproduct : m * NAD ≤ fl a := le_round (fl_mul_NAD hm) (mul_nonneg hnonneg NAD_pos.le) h
  exact natCast_le_floor_fl (by omega) ((le_div_iff₀ NAD_pos).mpr hproduct)

section Taylor

variable {reducedX scale bound : ℚ}

/-- More terms do not take the sum below a double that it has reached. -/
theorem le_taylorSum (hx : 0 ≤ reducedX) (hscale : 0 ≤ scale) (hbound : 0 ≤ bound)
    (hexact : fl bound = bound) (count : ℕ) :
    ∀ {i term sum : ℚ}, 0 ≤ i → 0 ≤ term → bound ≤ sum →
      bound ≤ taylorSum reducedX scale count i term sum := by
  induction count with
  | zero => exact fun _ _ hsum => hsum
  | succ count ih =>
    intro i term sum hi hterm hsum
    have hnext : (0 : ℚ) ≤ ⌊fl (fl (term * reducedX) / fl (i * scale))⌋ := by
      have hquotient := round_nonneg (div_nonneg (round_nonneg (mul_nonneg hterm hx))
        (round_nonneg (mul_nonneg hi hscale)))
      exact_mod_cast Int.floor_nonneg.mpr hquotient
    rw [taylorSum]
    split
    · exact hsum
    · have hmore := hsum.trans (le_add_of_nonneg_right hnext)
      exact ih (add_nonneg hi zero_le_one) hnext (le_round hexact hbound hmore)

/-- The series is more than its first term. -/
theorem lt_taylorSum (hx : 1 ≤ reducedX) :
    (1000000001 : ℕ) ≤ taylorSum reducedX NAD TAYLOR_TERMS 1 NAD NAD := by
  have hone : fl (1 * NAD) = NAD := by
    rw [one_mul, NAD_eq]
    exact fl_natCast (by norm_num)
  have hterm : ((1 : ℕ) : ℚ) ≤ ⌊fl (fl (NAD * reducedX) / NAD)⌋ := by
    refine le_floor_div_NAD (by norm_num) ?_
    rw [Nat.cast_one, one_mul]
    exact le_mul_of_one_le_right NAD_pos.le hx
  rw [Nat.cast_one] at hterm
  rw [TAYLOR_TERMS, taylorSum, hone, if_neg (zero_lt_one.trans_le hterm).ne']
  refine le_taylorSum (zero_le_one.trans hx) NAD_pos.le (Nat.cast_nonneg _)
    (fl_natCast (by norm_num)) 4 (by norm_num) (zero_le_one.trans hterm) ?_
  refine le_round (fl_natCast (by norm_num)) (Nat.cast_nonneg _) ?_
  calc ((1000000001 : ℕ) : ℚ) = NAD + 1 := by norm_num [NAD]
    _ ≤ _ := add_le_add_right hterm _

theorem le_iterate {sum : ℚ} (hsum : (1000000001 : ℕ) ≤ sum) (n : ℕ) :
    (1000000001 : ℕ) ≤ (fun result : ℚ => (⌊fl (fl (result * sum) / NAD)⌋ : ℚ))^[n + 1] NAD := by
  have hstep : ∀ result : ℚ, NAD ≤ result →
      (1000000001 : ℕ) ≤ (⌊fl (fl (result * sum) / NAD)⌋ : ℚ) := by
    intro result hresult
    refine le_floor_div_NAD (by norm_num) ?_
    rw [mul_comm]
    exact mul_le_mul hresult hsum (Nat.cast_nonneg _) (NAD_pos.le.trans hresult)
  induction n with
  | zero => exact hstep NAD le_rfl
  | succ n ih =>
    rw [Function.iterate_succ_apply']
    refine hstep _ (le_trans ?_ ih)
    rw [NAD_eq]
    norm_num

end Taylor

/-- A whole part of NAD that is not all of it. -/
def IsPart (weight : ℚ) : Prop := ∃ n : ℕ, n < 1000000000 ∧ weight = n

theorem isPart_reciprocal {result : ℚ} (h : (1000000001 : ℕ) ≤ result) :
    IsPart ⌊fl (fl (NAD * NAD) / result)⌋ := by
  have hpos : 0 < result := lt_of_lt_of_le (by norm_num) h
  have hsquare : fl (NAD * NAD) = NAD * NAD := @fl_mul_NAD 1000000000 (by norm_num)
  have hnonneg : 0 ≤ NAD * NAD / result := div_nonneg (mul_pos NAD_pos NAD_pos).le hpos.le
  have hquotient : NAD * NAD / result ≤ NAD - 1 / 2 := by
    rw [div_le_iff₀ hpos, NAD_eq]
    push_cast at h
    linarith
  have hless : fl (NAD * NAD / result) < 1000000000 := by
    have hround := (within_round hnonneg).2
    rw [NAD_eq] at hquotient hround ⊢
    rw [unit] at hround
    linarith
  rw [hsquare]
  have hfloor : 0 ≤ ⌊fl (NAD * NAD / result)⌋ := Int.floor_nonneg.mpr (round_nonneg hnonneg)
  refine ⟨⌊fl (NAD * NAD / result)⌋.toNat, ?_, ?_⟩
  · have hlt : ⌊fl (NAD * NAD / result)⌋ < 1000000000 :=
      Int.floor_lt.mpr (by exact_mod_cast hless)
    omega
  · exact_mod_cast (Int.toNat_of_nonneg hfloor).symm

theorem taylorExp_neg {x : ℚ} (hx : 10 ≤ x) : IsPart (taylorExp (-x) NAD TAYLOR_TERMS) := by
  have hreduced : (1 : ℚ) ≤ ⌊fl (|(-x)| / 10)⌋ := by
    have habs : |(-x)| = x := by rw [abs_neg, abs_of_nonneg (by linarith)]
    have hquotient : ((1 : ℕ) : ℚ) ≤ |(-x)| / 10 := by
      rw [habs, le_div_iff₀ (by norm_num)]
      push_cast
      linarith
    exact_mod_cast natCast_le_floor_fl (by norm_num) hquotient
  rw [taylorExp, if_pos (by linarith)]
  exact isPart_reciprocal (le_iterate (lt_taylorSum hreduced) 9)

theorem ten_le_exponent {dt : ℤ} (hdt : dt > 0) :
    (10 : ℚ) ≤ ⌊fl (fl (dt * NAD) /
      ⌊fl (fl (DEFAULT_HALF_LIFE * NAD) / NATURAL_LOG_OF_TWO_NAD)⌋)⌋ := by
  have hexpTime : ⌊fl (fl (DEFAULT_HALF_LIFE * NAD) / NATURAL_LOG_OF_TWO_NAD)⌋ = 865 := by
    decide +kernel
  have hproduct : ((1 : ℕ) : ℚ) * NAD ≤ fl (dt * NAD) := by
    refine le_round (fl_mul_NAD (by norm_num)) (by norm_num [NAD]) ?_
    exact mul_le_mul_of_nonneg_right (by exact_mod_cast hdt) NAD_pos.le
  have hquotient : ((10 : ℕ) : ℚ) ≤ fl (dt * NAD) / (865 : ℤ) := by
    rw [NAD_eq] at hproduct
    rw [le_div_iff₀ (by norm_num), NAD_eq]
    push_cast at *
    linarith
  rw [hexpTime]
  exact_mod_cast natCast_le_floor_fl (by norm_num) hquotient

theorem isPart_of_mem_weight {dt : ℤ} : ∀ alpha ∈ weight dt, IsPart alpha := by
  intro alpha halpha
  unfold weight at halpha
  split at halpha
  · rename_i hdt
    obtain rfl := Option.some.inj halpha
    exact taylorExp_neg (ten_le_exponent hdt)
  · cases halpha

/-! ## A step of the average -/

section Blend

variable {lastEma input : ℚ} {alpha : Option ℚ}

theorem rest_eq {n : ℕ} (hn : n < 1000000000) : (NAD - n : ℚ) = (1000000000 - n : ℕ) := by
  rw [Nat.cast_sub hn.le, NAD_eq, Nat.cast_ofNat]

theorem fl_rest {n : ℕ} (hn : n < 1000000000) : fl (NAD - n) = NAD - n := by
  rw [rest_eq hn, fl_natCast (by omega)]

/-- Prices of 1 in NAD or more do not average to less. -/
theorem one_le_blend (halpha : ∀ a ∈ alpha, IsPart a) (hlast : 1 ≤ lastEma)
    (hinput : 1 ≤ input) : 1 ≤ blend lastEma input alpha := by
  cases alpha with
  | none => exact hlast
  | some alpha =>
    obtain ⟨n, hn, rfl⟩ := halpha alpha rfl
    have hnonneg : (0 : ℚ) ≤ n := Nat.cast_nonneg n
    have hle : (0 : ℚ) ≤ NAD - n := by
      have : (n : ℚ) ≤ 1000000000 := by exact_mod_cast hn.le
      rw [NAD_eq]
      linarith
    have hnew : NAD - n ≤ fl (input * fl (NAD - n)) := by
      rw [fl_rest hn]
      exact le_round (fl_rest hn) hle (le_mul_of_one_le_left hle hinput)
    have hold : (n : ℚ) ≤ fl (lastEma * n) :=
      le_round (fl_natCast (by omega)) hnonneg (le_mul_of_one_le_left hnonneg hlast)
    have hfloor := @le_floor_div_NAD 1
      (fl (input * fl (NAD - n)) + fl (lastEma * n)) (by norm_num) (by
        rw [Nat.cast_one, one_mul]
        linarith)
    rw [Nat.cast_one] at hfloor
    exact hfloor

/-- The price that a long history ends with, before it falls to 1. -/
def highPrice : ℚ := 2048 * NAD

theorem fl_highPrice_mul {n : ℕ} (hn : n ≤ 1000000000) : fl (highPrice * n) = highPrice * n := by
  have hsplit : (highPrice * n : ℚ) = (n * 1953125 : ℕ) * 2 ^ 20 := by
    rw [highPrice, NAD_eq]
    push_cast
    ring
  rw [hsplit, round_dyadic (by omega)]

/-- The high price is its own average. -/
theorem blend_highPrice (halpha : ∀ a ∈ alpha, IsPart a) :
    blend highPrice highPrice alpha = highPrice := by
  cases alpha with
  | none => rfl
  | some alpha =>
    obtain ⟨n, hn, rfl⟩ := halpha alpha rfl
    have hsum : highPrice * (NAD - n) + highPrice * n = (3814697265625 : ℕ) * 2 ^ 29 := by
      rw [highPrice, NAD_eq]
      push_cast
      ring
    have hquotient : ((3814697265625 : ℕ) : ℚ) * 2 ^ 29 / NAD = (2048000000000 : ℕ) := by
      rw [NAD_eq]
      norm_num
    have hnew : fl (highPrice * (NAD - n)) = highPrice * (NAD - n) := by
      rw [rest_eq hn]
      exact fl_highPrice_mul (Nat.sub_le _ _)
    have hhigh : highPrice = (2048000000000 : ℕ) := by
      rw [highPrice, NAD_eq]
      norm_num
    rw [blend, fl_rest hn, hnew, fl_highPrice_mul hn.le, hsum, round_dyadic (by norm_num),
      hquotient, fl_natCast (by norm_num), Int.floor_natCast, hhigh, Int.cast_natCast]

/-- The share of the last value in a step. -/
def share : Option ℚ → ℚ
  | none => NAD
  | some alpha => alpha

theorem exists_share_eq (halpha : ∀ a ∈ alpha, IsPart a) :
    ∃ n : ℕ, n ≤ 1000000000 ∧ share alpha = n := by
  cases alpha with
  | none => exact ⟨1000000000, le_rfl, NAD_eq.trans (Nat.cast_ofNat).symm⟩
  | some alpha =>
    obtain ⟨n, hn, rfl⟩ := halpha alpha rfl
    exact ⟨n, hn.le, rfl⟩

theorem share_lt {weight : ℚ} (h : IsPart weight) : share (some weight) < share none := by
  obtain ⟨n, hn, rfl⟩ := h
  change (n : ℚ) < NAD
  rw [NAD_eq]
  exact_mod_cast hn

/-- The share tells the weight, since a weight is not all of NAD. -/
theorem eq_of_share_eq {alpha' : Option ℚ} (halpha : ∀ a ∈ alpha, IsPart a)
    (halpha' : ∀ a ∈ alpha', IsPart a) (h : share alpha = share alpha') : alpha = alpha' := by
  cases alpha with
  | none =>
    cases alpha' with
    | none => rfl
    | some alpha' => exact absurd h (share_lt (halpha' alpha' rfl)).ne'
  | some alpha =>
    cases alpha' with
    | none => exact absurd h (share_lt (halpha alpha rfl)).ne
    | some alpha' => exact congrArg some h

/-- A division by NAD undoes a multiplication, but for one unit. -/
theorem floor_div_NAD_mem {c : ℕ} (hc : c ≤ 2048000000000) :
    (c : ℚ) - 1 ≤ ⌊fl (fl (c * NAD) / NAD)⌋ ∧ (⌊fl (fl (c * NAD) / NAD)⌋ : ℚ) ≤ c := by
  have hnonneg : (0 : ℚ) ≤ c := Nat.cast_nonneg c
  have hle : (c : ℚ) ≤ 2048000000000 := by exact_mod_cast hc
  have hNAD : Within 1 1 (NAD : ℚ) NAD := ⟨(one_mul _).le, (one_mul _).ge⟩
  have hproduct := within_round (mul_nonneg hnonneg NAD_pos.le)
  have hquotient := (hproduct.div hNAD (by norm_num [unit]) one_pos
    (mul_nonneg hnonneg NAD_pos.le) NAD_pos).round (by norm_num [unit])
    (by rwa [mul_div_cancel_right₀ _ NAD_pos.ne'])
  rw [mul_div_cancel_right₀ _ NAD_pos.ne', Within, unit] at hquotient
  obtain ⟨hlow, hhigh⟩ := hquotient
  constructor
  · have hfloor : (c : ℤ) - 1 ≤ ⌊fl (fl (c * NAD) / NAD)⌋ := by
      rw [Int.le_floor]
      push_cast
      linarith
    exact_mod_cast hfloor
  · have hfloor : ⌊fl (fl (c * NAD) / NAD)⌋ < (c : ℤ) + 1 := by
      rw [Int.floor_lt]
      push_cast
      linarith
    exact_mod_cast Int.lt_add_one_iff.mp hfloor

/-- After a fall from the high price to 1 the average is what the weight says, or one less
in NAD. -/
theorem blend_fall (halpha : ∀ a ∈ alpha, IsPart a) :
    NAD + 2047 * share alpha - 1 ≤ blend highPrice NAD alpha ∧
      blend highPrice NAD alpha ≤ NAD + 2047 * share alpha := by
  cases alpha with
  | none =>
    rw [blend, share, highPrice]
    constructor <;> linarith
  | some alpha =>
    obtain ⟨n, hn, rfl⟩ := halpha alpha rfl
    have hnew : fl (NAD * (NAD - n)) = NAD * (NAD - n) := by
      rw [rest_eq hn, mul_comm]
      exact fl_mul_NAD (by omega)
    have hsum : NAD * (NAD - n) + highPrice * n = (1000000000 + 2047 * n : ℕ) * NAD := by
      rw [highPrice, NAD_eq]
      push_cast
      ring
    have hcast : NAD + 2047 * (n : ℚ) = (1000000000 + 2047 * n : ℕ) := by
      rw [NAD_eq]
      push_cast
      ring
    rw [blend, share, fl_rest hn, hnew, fl_highPrice_mul hn.le, hsum, hcast]
    exact floor_div_NAD_mem (by omega)

end Blend

/-! ## Reading a value back -/

theorem fromNad_within {nadValue : ℚ} (h : 0 ≤ nadValue) (hhigh : nadValue ≤ highPrice) :
    nadValue / NAD - 6 / 10 ^ 7 ≤ fromNad nadValue ∧
      fromNad nadValue ≤ nadValue / NAD + 6 / 10 ^ 7 := by
  have hnonneg : 0 ≤ nadValue / NAD := div_nonneg h NAD_pos.le
  have hle : nadValue / NAD ≤ 2048 := (div_le_iff₀ NAD_pos).mpr hhigh
  have hprice := within_round hnonneg
  have hpos := round_nonneg hnonneg
  rw [fromNad]
  generalize fl (nadValue / NAD) = price at hprice hpos ⊢
  rw [Within, unit] at hprice
  rw [if_pos (by linarith)]
  have hlow := Int.floor_le (price * 10 ^ 6 + 1 / 2)
  have hlt := Int.lt_floor_add_one (price * 10 ^ 6 + 1 / 2)
  have hfloor : (0 : ℚ) ≤ ⌊price * 10 ^ 6 + 1 / 2⌋ := by
    exact_mod_cast Int.floor_nonneg.mpr (by linarith)
  have hfixed := within_round (div_nonneg hfloor (show (0 : ℚ) ≤ 10 ^ 6 by norm_num))
  generalize (⌊price * 10 ^ 6 + 1 / 2⌋ : ℚ) = fixed at hlow hlt hfloor hfixed ⊢
  rw [Within, unit] at hfixed
  constructor <;> linarith

theorem fromNad_fall_within {alpha : Option ℚ} (halpha : ∀ a ∈ alpha, IsPart a) :
    1 + 2047 * share alpha / 10 ^ 9 - 7 / 10 ^ 7 ≤ fromNad (blend highPrice NAD alpha) ∧
      fromNad (blend highPrice NAD alpha) ≤ 1 + 2047 * share alpha / 10 ^ 9 + 7 / 10 ^ 7 := by
  obtain ⟨hlow, hhigh⟩ := blend_fall halpha
  obtain ⟨n, hn, hshare⟩ := exists_share_eq halpha
  rw [hshare] at hlow hhigh ⊢
  have hnonneg : (0 : ℚ) ≤ n := Nat.cast_nonneg n
  have hle : (n : ℚ) ≤ 1000000000 := by exact_mod_cast hn
  generalize blend highPrice NAD alpha = value at hlow hhigh ⊢
  rw [NAD_eq] at hlow hhigh
  have hread := @fromNad_within value (by linarith) (by rw [highPrice, NAD_eq]; linarith)
  rw [NAD_eq] at hread
  constructor <;> linarith

/-- A weight shows in what is read after the fall. -/
theorem weight_of_fromNad_fall {alpha alpha' : Option ℚ} (halpha : ∀ a ∈ alpha, IsPart a)
    (halpha' : ∀ a ∈ alpha', IsPart a)
    (h : fromNad (blend highPrice NAD alpha) = fromNad (blend highPrice NAD alpha')) :
    alpha = alpha' := by
  obtain ⟨n, hn, hshare⟩ := exists_share_eq halpha
  obtain ⟨n', hn', hshare'⟩ := exists_share_eq halpha'
  have hread := fromNad_fall_within halpha
  have hread' := fromNad_fall_within halpha'
  rw [hshare] at hread
  rw [hshare', ← h] at hread'
  have hle : (n : ℚ) < n' + 1 := by linarith
  have hge : (n' : ℚ) < n + 1 := by linarith
  refine eq_of_share_eq halpha halpha' ?_
  rw [hshare, hshare']
  have hlt : n < n' + 1 := by exact_mod_cast hle
  have hgt : n' < n + 1 := by exact_mod_cast hge
  exact_mod_cast (show n = n' by omega)

/-! ## The data of a pool -/

/-- The weight of a last value when the clock reads `now`: a time of 0 is falsy. -/
def clockWeight (lastUpdate now : ℤ) : Option ℚ :=
  weight (now - lastUpdateTime (some lastUpdate) now)

theorem calculateSpotPrice_nonneg {reserve0 reserve1 : ℚ} (h0 : 0 ≤ reserve0) (h1 : 0 ≤ reserve1)
    (price0 : Bool) : 0 ≤ calculateSpotPrice reserve0 reserve1 price0 := by
  have hquotient : ∀ a b : ℚ, 0 ≤ a → 0 ≤ b → 0 ≤ ⌊fl (fl (a * NAD) / b)⌋ := fun a b ha hb =>
    Int.floor_nonneg.mpr (round_nonneg (div_nonneg (round_nonneg (mul_nonneg ha NAD_pos.le)) hb))
  unfold calculateSpotPrice
  split <;> split <;> first | exact le_rfl | exact hquotient _ _ (by assumption) (by assumption)

theorem calculated_first (reserve0 reserve1 : ℕ) (now : ℤ) :
    (calculateEmaFromPoolData reserve0 reserve1 none none none now).price0Ema =
      calculateSpotPrice (fl reserve0) (fl reserve1) true := by
  simp only [calculateEmaFromPoolData, initialEma, lastUpdateTime]
  rw [computeEma_eq, sub_self]
  rfl

theorem calculated_price0Ema (reserve0 reserve1 : ℕ) (lastEma : ℚ) (lastPrice1Ema : Option ℚ)
    (lastUpdate now : ℤ) :
    (calculateEmaFromPoolData reserve0 reserve1 (some lastEma) lastPrice1Ema (some lastUpdate)
        now).price0Ema =
      let spotPrice := calculateSpotPrice (fl reserve0) (fl reserve1) true
      blend (initialEma (some lastEma) spotPrice) spotPrice (clockWeight lastUpdate now) :=
  computeEma_eq _ _ _ _

end EmaDoubles

end OmnipairIndexer
