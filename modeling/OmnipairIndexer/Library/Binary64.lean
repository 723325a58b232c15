/-
Non-negative double-precision arithmetic, exactly.

A finite value is the rational it stands for.  `round` is round-to-nearest,
ties-to-even, to 53 significant bits.  The exponent is not bounded: the range of
binary64 is wide enough for quotients and products of 64-bit integers, which are
the only values this module is meant for.

`Within lo hi q r` bounds a computed value `r` by multiples of the exact one, `q`.  The
bounds of a product, of a quotient and of a rounding are had from those of the operands,
so that a bound for a whole computation is a product of factors.  A number that has 53 bits
is its own rounding, and rounding keeps the order.
-/
import Mathlib.Algebra.Order.Field.Power
import Mathlib.Algebra.Order.Ring.Abs
import Mathlib.Data.Int.Log
import Mathlib.Data.Rat.Floor
import Mathlib.Tactic.Linarith
import Mathlib.Tactic.NormNum
import Mathlib.Tactic.Positivity
import Mathlib.Tactic.Ring

namespace Binary64

/-- A double that is not negative. -/
inductive F64 where
  | finite (q : ℚ)
  | infinite
  | nan
  deriving DecidableEq

/-- The nearest integer, the even one of two. -/
def roundEven (q : ℚ) : ℤ :=
  let low := ⌊q⌋
  let rest := q - low
  if rest < 1 / 2 then low
  else if 1 / 2 < rest then low + 1
  else if low % 2 = 0 then low
  else low + 1

/-- The nearest number with 53 significant bits. -/
def round (q : ℚ) : ℚ :=
  if q = 0 then 0
  else
    let ulp : ℚ := 2 ^ (Int.log 2 q - 52)
    roundEven (q / ulp) * ulp

namespace F64

/-- `x as f64` on a 64-bit integer. -/
def ofUInt64 (x : UInt64) : F64 := finite (round x.toNat)

def div : F64 → F64 → F64
  | finite a, finite b =>
    if b = 0 then if a = 0 then nan else infinite else finite (round (a / b))
  | infinite, finite _ => infinite
  | finite _, infinite => finite 0
  | _, _ => nan

def mul : F64 → F64 → F64
  | finite a, finite b => finite (round (a * b))
  | infinite, finite b => if b = 0 then nan else infinite
  | finite a, infinite => if a = 0 then nan else infinite
  | infinite, infinite => infinite
  | _, _ => nan

/-- `x as u64`: truncation, saturating at the largest value, and `0` for a NaN. -/
def toUInt64 : F64 → UInt64
  | finite q => UInt64.ofNat (min ⌊q⌋.toNat (2 ^ 64 - 1))
  | infinite => UInt64.ofNat (2 ^ 64 - 1)
  | nan => 0

end F64

/-! ## Rounding errors -/

theorem abs_roundEven_sub_le (q : ℚ) : |(roundEven q : ℚ) - q| ≤ 1 / 2 := by
  have hlow : (⌊q⌋ : ℚ) ≤ q := Int.floor_le q
  have hhigh : q < ⌊q⌋ + 1 := Int.lt_floor_add_one q
  rw [abs_le]
  unfold roundEven
  dsimp only
  split
  · constructor <;> linarith
  · split
    · push_cast
      constructor <;> linarith
    · split
      · constructor <;> linarith
      · push_cast
        constructor <;> linarith

/-- `r` stands between the two multiples of `q`. -/
def Within (lo hi q r : ℚ) : Prop := lo * q ≤ r ∧ r ≤ hi * q

/-- Half of the last of 53 bits. -/
def unit : ℚ := 1 / 2 ^ 53

theorem within_round {q : ℚ} (hq : 0 ≤ q) : Within (1 - unit) (1 + unit) q (round q) := by
  rcases hq.eq_or_lt with rfl | hpos
  · simp only [Within, round, if_true, mul_zero, le_refl, and_self]
  · have hulp : (0 : ℚ) < 2 ^ (Int.log 2 q - 52) := zpow_pos two_pos _
    have hhalf : (2 : ℚ) ^ (Int.log 2 q - 52) / 2 ≤ unit * q := by
      have hlog : (2 : ℚ) ^ Int.log 2 q ≤ q := by
        exact_mod_cast Int.zpow_log_le_self one_lt_two hpos
      rw [zpow_sub₀ two_ne_zero, unit]
      norm_num
      linarith
    have hround : round q =
        roundEven (q / 2 ^ (Int.log 2 q - 52)) * 2 ^ (Int.log 2 q - 52) := if_neg hpos.ne'
    have herror : |round q - q| ≤ unit * q := by
      calc |round q - q|
          = |(roundEven (q / 2 ^ (Int.log 2 q - 52)) : ℚ) - q / 2 ^ (Int.log 2 q - 52)| *
              2 ^ (Int.log 2 q - 52) := by
            rw [← abs_of_pos hulp, ← abs_mul, abs_of_pos hulp, sub_mul,
              div_mul_cancel₀ q hulp.ne', hround]
        _ ≤ 1 / 2 * 2 ^ (Int.log 2 q - 52) :=
            mul_le_mul_of_nonneg_right (abs_roundEven_sub_le _) hulp.le
        _ ≤ unit * q := by linarith
    obtain ⟨hlow, hhigh⟩ := abs_le.mp herror
    constructor <;> linarith

section Within

variable {lo hi lo' hi' q q' r r' : ℚ}

theorem Within.nonneg (h : Within lo hi q r) (hlo : 0 ≤ lo) (hq : 0 ≤ q) : 0 ≤ r :=
  (mul_nonneg hlo hq).trans h.1

theorem Within.pos (h : Within lo hi q r) (hlo : 0 < lo) (hq : 0 < q) : 0 < r :=
  (mul_pos hlo hq).trans_le h.1

theorem Within.mul (h : Within lo hi q r) (h' : Within lo' hi' q' r') (hlo : 0 ≤ lo)
    (hlo' : 0 ≤ lo') (hq : 0 ≤ q) (hq' : 0 ≤ q') :
    Within (lo * lo') (hi * hi') (q * q') (r * r') := by
  have hr := h.nonneg hlo hq
  have hr' := h'.nonneg hlo' hq'
  constructor
  · calc lo * lo' * (q * q') = lo * q * (lo' * q') := by ring
      _ ≤ r * r' := mul_le_mul h.1 h'.1 (mul_nonneg hlo' hq') hr
  · calc r * r' ≤ hi * q * (hi' * q') := mul_le_mul h.2 h'.2 hr' (hr.trans h.2)
      _ = hi * hi' * (q * q') := by ring

theorem Within.div (h : Within lo hi q r) (h' : Within lo' hi' q' r') (hlo : 0 ≤ lo)
    (hlo' : 0 < lo') (hq : 0 ≤ q) (hq' : 0 < q') :
    Within (lo / hi') (hi / lo') (q / q') (r / r') := by
  have hr := h.nonneg hlo hq
  have hr' := h'.pos hlo' hq'
  constructor
  · calc lo / hi' * (q / q') = lo * q / (hi' * q') := div_mul_div_comm lo hi' q q'
      _ ≤ r / r' := div_le_div₀ hr h.1 hr' h'.2
  · calc r / r' ≤ hi * q / (lo' * q') := div_le_div₀ (hr.trans h.2) h.2 (mul_pos hlo' hq') h'.1
      _ = hi / lo' * (q / q') := (div_mul_div_comm hi lo' q q').symm

/-- One more rounding. -/
theorem Within.round (h : Within lo hi q r) (hlo : 0 ≤ lo) (hq : 0 ≤ q) :
    Within (lo * (1 - unit)) (hi * (1 + unit)) q (round r) := by
  have hr := h.nonneg hlo hq
  obtain ⟨hlow, hhigh⟩ := within_round hr
  have hunit : 0 < unit ∧ unit < 1 := by norm_num [unit]
  constructor
  · calc lo * (1 - unit) * q = (1 - unit) * (lo * q) := by ring
      _ ≤ (1 - unit) * r := mul_le_mul_of_nonneg_left h.1 (by linarith)
      _ ≤ Binary64.round r := hlow
  · calc Binary64.round r ≤ (1 + unit) * r := hhigh
      _ ≤ (1 + unit) * (hi * q) := mul_le_mul_of_nonneg_left h.2 (by linarith)
      _ = hi * (1 + unit) * q := by ring

theorem Within.mono (h : Within lo hi q r) (hq : 0 ≤ q) (hlo : lo' ≤ lo) (hhi : hi ≤ hi') :
    Within lo' hi' q r :=
  ⟨(mul_le_mul_of_nonneg_right hlo hq).trans h.1, h.2.trans (mul_le_mul_of_nonneg_right hhi hq)⟩

end Within

/-- The cast truncates, up to the largest value. -/
theorem F64.toUInt64_finite {q : ℚ} (hq : 0 ≤ q) :
    ((finite q).toUInt64.toNat : ℚ) ≤ q ∧
      (q < (finite q).toUInt64.toNat + 1 ∨ (finite q).toUInt64.toNat = 2 ^ 64 - 1) := by
  have hnonneg : 0 ≤ ⌊q⌋ := Int.floor_nonneg.mpr hq
  have hfloor : ((⌊q⌋.toNat : ℕ) : ℚ) = ⌊q⌋ := by
    exact_mod_cast congrArg (Int.cast : ℤ → ℚ) (Int.toNat_of_nonneg hnonneg)
  have hnat : (finite q).toUInt64.toNat = min ⌊q⌋.toNat (2 ^ 64 - 1) :=
    UInt64.toNat_ofNat_of_lt' (lt_of_le_of_lt (Nat.min_le_right _ _) (by decide))
  rw [hnat]
  rcases le_total ⌊q⌋.toNat (2 ^ 64 - 1) with hle | hge
  · rw [Nat.min_eq_left hle, hfloor]
    exact ⟨Int.floor_le q, Or.inl (Int.lt_floor_add_one q)⟩
  · rw [Nat.min_eq_right hge]
    refine ⟨?_, Or.inr rfl⟩
    have hcast : ((2 ^ 64 - 1 : ℕ) : ℚ) ≤ ⌊q⌋.toNat := Nat.cast_le.mpr hge
    exact hcast.trans (hfloor ▸ Int.floor_le q)

theorem round_pos {q : ℚ} (hq : 0 < q) : 0 < round q :=
  (within_round hq.le).pos (by norm_num [unit]) hq

theorem round_nonneg {q : ℚ} (hq : 0 ≤ q) : 0 ≤ round q :=
  (within_round hq).nonneg (by norm_num [unit]) hq

/-! ## Exact results and order -/

theorem roundEven_intCast (z : ℤ) : roundEven z = z := by
  unfold roundEven
  norm_num

theorem floor_le_roundEven (q : ℚ) : ⌊q⌋ ≤ roundEven q := by
  unfold roundEven
  dsimp only
  split_ifs <;> omega

theorem roundEven_le_floor_add_one (q : ℚ) : roundEven q ≤ ⌊q⌋ + 1 := by
  unfold roundEven
  dsimp only
  split_ifs <;> omega

theorem roundEven_mono {q r : ℚ} (h : q ≤ r) : roundEven q ≤ roundEven r := by
  have hfloor := Int.floor_le_floor h
  by_cases hsame : ⌊q⌋ = ⌊r⌋
  · unfold roundEven
    dsimp only
    rw [hsame]
    have hrest : q - ⌊r⌋ ≤ r - ⌊r⌋ := by linarith
    split_ifs <;> first | omega | (exfalso; linarith)
  · have hlow := roundEven_le_floor_add_one q
    have hhigh := floor_le_roundEven r
    omega

theorem round_of_pos {q : ℚ} (hq : 0 < q) :
    round q = roundEven (q / 2 ^ (Int.log 2 q - 52)) * 2 ^ (Int.log 2 q - 52) :=
  if_neg hq.ne'

/-- A number of 53 bits is its own rounding. -/
theorem round_dyadic {m : ℕ} (hm : m < 2 ^ 53) (e : ℕ) : round (m * 2 ^ e) = m * 2 ^ e := by
  obtain rfl | hpos := Nat.eq_zero_or_pos m
  · simp only [Nat.cast_zero, zero_mul, round, if_true]
  have hq : (0 : ℚ) < m * 2 ^ e := mul_pos (by exact_mod_cast hpos) (pow_pos two_pos e)
  have hlog : Int.log 2 ((m : ℚ) * 2 ^ e) < e + 53 := by
    rw [← Int.lt_zpow_iff_log_lt one_lt_two hq]
    have hm' : (m : ℚ) < 2 ^ 53 := by exact_mod_cast hm
    calc (m : ℚ) * 2 ^ e < 2 ^ 53 * 2 ^ e := mul_lt_mul_of_pos_right hm' (pow_pos two_pos e)
      _ = ((2 : ℕ) : ℚ) ^ ((e : ℤ) + 53) := by
        rw [zpow_add₀ (by norm_num), mul_comm]
        norm_cast
  obtain ⟨k, hk⟩ : ∃ k : ℕ, (e : ℤ) = k + (Int.log 2 ((m : ℚ) * 2 ^ e) - 52) :=
    ⟨((e : ℤ) - (Int.log 2 ((m : ℚ) * 2 ^ e) - 52)).toNat, by omega⟩
  have hulp : (0 : ℚ) < 2 ^ (Int.log 2 ((m : ℚ) * 2 ^ e) - 52) := zpow_pos two_pos _
  have hquotient : (m : ℚ) * 2 ^ e / 2 ^ (Int.log 2 ((m : ℚ) * 2 ^ e) - 52) =
      ((m * 2 ^ k : ℤ) : ℚ) := by
    rw [div_eq_iff hulp.ne']
    have hpow : (2 : ℚ) ^ e = 2 ^ k * 2 ^ (Int.log 2 ((m : ℚ) * 2 ^ e) - 52) := by
      calc (2 : ℚ) ^ e = 2 ^ (e : ℤ) := (zpow_natCast 2 e).symm
        _ = 2 ^ (k + (Int.log 2 ((m : ℚ) * 2 ^ e) - 52)) := congrArg _ hk
        _ = 2 ^ k * 2 ^ (Int.log 2 ((m : ℚ) * 2 ^ e) - 52) := by
          rw [zpow_add₀ two_ne_zero, zpow_natCast]
    conv_lhs => rw [hpow]
    push_cast
    ring
  rw [round_of_pos hq, hquotient, roundEven_intCast, ← hquotient, div_mul_cancel₀ _ hulp.ne']

theorem round_natCast {m : ℕ} (hm : m < 2 ^ 53) : round m = m := by
  have h := round_dyadic hm 0
  rwa [pow_zero, mul_one] at h

theorem le_two_zpow_of_round {q : ℚ} (hq : 0 < q) : round q ≤ 2 ^ (Int.log 2 q + 1) := by
  have hulp : (0 : ℚ) < 2 ^ (Int.log 2 q - 52) := zpow_pos two_pos _
  have hsplit : (2 : ℚ) ^ (Int.log 2 q + 1) = ((2 ^ 53 : ℤ) : ℚ) * 2 ^ (Int.log 2 q - 52) := by
    rw [show Int.log 2 q + 1 = 53 + (Int.log 2 q - 52) by ring, zpow_add₀ two_ne_zero]
    norm_num
  have hlt : q < ((2 : ℕ) : ℚ) ^ (Int.log 2 q + 1) := Int.lt_zpow_succ_log_self one_lt_two q
  rw [round_of_pos hq, hsplit]
  refine mul_le_mul_of_nonneg_right ?_ hulp.le
  rw [Int.cast_le, ← roundEven_intCast (2 ^ 53)]
  refine roundEven_mono ((div_le_iff₀ hulp).mpr ?_)
  rw [← hsplit]
  exact_mod_cast hlt.le

theorem two_zpow_le_round {q : ℚ} (hq : 0 < q) : 2 ^ Int.log 2 q ≤ round q := by
  have hulp : (0 : ℚ) < 2 ^ (Int.log 2 q - 52) := zpow_pos two_pos _
  have hsplit : (2 : ℚ) ^ Int.log 2 q = ((2 ^ 52 : ℤ) : ℚ) * 2 ^ (Int.log 2 q - 52) := by
    rw [show Int.log 2 q = 52 + (Int.log 2 q - 52) by ring, zpow_add₀ two_ne_zero]
    norm_num
  have hle : ((2 : ℕ) : ℚ) ^ Int.log 2 q ≤ q := Int.zpow_log_le_self one_lt_two hq
  rw [round_of_pos hq, hsplit]
  refine mul_le_mul_of_nonneg_right ?_ hulp.le
  rw [Int.cast_le, ← roundEven_intCast (2 ^ 52)]
  refine roundEven_mono ((le_div_iff₀ hulp).mpr ?_)
  rw [← hsplit]
  exact_mod_cast hle

/-- Rounding keeps the order. -/
theorem round_mono {q r : ℚ} (hq : 0 ≤ q) (h : q ≤ r) : round q ≤ round r := by
  obtain rfl | hpos := hq.eq_or_lt
  · rw [round, if_pos rfl]
    exact round_nonneg h
  have hr := hpos.trans_le h
  obtain hlog | hlog := (Int.log_mono_right hpos h : Int.log 2 q ≤ Int.log 2 r).eq_or_lt
  · have hulp : (0 : ℚ) < 2 ^ (Int.log 2 r - 52) := zpow_pos two_pos _
    rw [round_of_pos hpos, round_of_pos hr, hlog]
    refine mul_le_mul_of_nonneg_right (Int.cast_le.mpr (roundEven_mono ?_)) hulp.le
    exact div_le_div_of_nonneg_right h hulp.le
  · calc round q ≤ 2 ^ (Int.log 2 q + 1) := le_two_zpow_of_round hpos
      _ ≤ 2 ^ Int.log 2 r := zpow_le_zpow_right₀ one_le_two (by omega)
      _ ≤ round r := two_zpow_le_round hr

/-- What is at least a double is at least that when it is rounded. -/
theorem le_round {q r : ℚ} (hr : round r = r) (hnonneg : 0 ≤ r) (h : r ≤ q) : r ≤ round q :=
  hr.symm.le.trans (round_mono hnonneg h)

/-- `Math.floor` of a rounded number keeps the whole numbers below it. -/
theorem natCast_le_floor_round {m : ℕ} (hm : m < 2 ^ 53) {q : ℚ} (h : (m : ℚ) ≤ q) :
    (m : ℚ) ≤ ⌊round q⌋ := by
  have hround : (m : ℚ) ≤ round q := le_round (round_natCast hm) (Nat.cast_nonneg m) h
  exact_mod_cast Int.le_floor.mpr (by exact_mod_cast hround)

end Binary64
