import Mathlib.Algebra.Order.Floor.Ring
import Mathlib.Algebra.Ring.CharZero
import Mathlib.Data.Int.Log
import Mathlib.Tactic.Linarith
import Mathlib.Tactic.Ring

/-!
# Rounding to Floating-Point Numbers

A number is rounded to the nearest one with `p` significant binary digits, and of two such
numbers that are equally near to the one with an even significand (`toNearest`). The exponents
are not bounded, so there is neither overflow nor underflow.

Rounding is monotone and odd, leaves the naturals with `p` digits alone, and has a relative error
of at most one half of a unit in the last place.
-/

namespace Floating

variable {K : Type*} [Field K] [LinearOrder K] [FloorRing K]

/-! ### The nearest integer -/

/-- The nearest integer, the even one if two are equally near. -/
def nearestInt (x : K) : ℤ :=
  if Int.fract x < 1 / 2 then ⌊x⌋
  else if 1 / 2 < Int.fract x then ⌊x⌋ + 1
  else if Even ⌊x⌋ then ⌊x⌋ else ⌊x⌋ + 1

/-- Rounding goes down to the floor at most. -/
theorem floor_le_nearestInt (x : K) : ⌊x⌋ ≤ nearestInt x := by
  unfold nearestInt
  split_ifs <;> omega

/-- It goes up to the next integer at most. -/
theorem nearestInt_le_floor_add_one (x : K) : nearestInt x ≤ ⌊x⌋ + 1 := by
  unfold nearestInt
  split_ifs <;> omega

variable [IsStrictOrderedRing K]

/-- Rounding is monotone. -/
theorem nearestInt_mono {x y : K} (hxy : x ≤ y) : nearestInt x ≤ nearestInt y := by
  obtain heq | hlt := (Int.floor_mono hxy).eq_or_lt
  · have hfract : Int.fract x ≤ Int.fract y := by
      rw [Int.fract, Int.fract, heq]
      exact sub_le_sub_right hxy _
    unfold nearestInt
    rw [heq]
    split_ifs <;> first | omega | exact absurd hfract (by linarith)
  · calc nearestInt x ≤ ⌊x⌋ + 1 := nearestInt_le_floor_add_one x
      _ ≤ ⌊y⌋ := hlt
      _ ≤ nearestInt y := floor_le_nearestInt y

/-- Integers are not rounded. -/
@[simp] theorem nearestInt_intCast (k : ℤ) : nearestInt (k : K) = k := by
  simp [nearestInt]

/-- Rounding moves a number by one half at most. -/
theorem abs_nearestInt_sub_le (x : K) : |(nearestInt x : K) - x| ≤ 1 / 2 := by
  have hx : x = ⌊x⌋ + Int.fract x := (Int.floor_add_fract x).symm
  have hnonneg := Int.fract_nonneg x
  have hlt := Int.fract_lt_one x
  rw [abs_le]
  unfold nearestInt
  split_ifs <;> push_cast <;> constructor <;> linarith

/-- Rounding is symmetric, since the ties go to the even integers. -/
theorem nearestInt_neg (x : K) : nearestInt (-x) = -nearestInt x := by
  by_cases hx : Int.fract x = 0
  · obtain ⟨k, rfl⟩ := Int.fract_eq_zero_iff.mp hx
    rw [← Int.cast_neg, nearestInt_intCast, nearestInt_intCast]
  · have hfloor : ⌊-x⌋ = -⌊x⌋ - 1 := by
      rw [Int.floor_neg, (Int.ceil_eq_floor_add_one_iff_notMem x).mpr
        fun hmem => hx (Int.fract_eq_zero_iff.mpr hmem)]
      ring
    have heven : Even (-⌊x⌋ - 1) ↔ ¬ Even ⌊x⌋ := by
      rw [Int.even_sub_one, even_neg]
    unfold nearestInt
    rw [Int.fract_neg hx, hfloor]
    simp only [heven]
    split_ifs <;> first | omega | (exfalso; linarith)

/-! ### The nearest number with a number of digits -/

/-- The distance of `x` to the next larger number with `p` digits, up to rounding. -/
def ulp (p : ℕ) (x : K) : K :=
  2 ^ (Int.log 2 |x| + 1 - p)

/-- The nearest number with `p` significant binary digits. -/
def toNearest (p : ℕ) (x : K) : K :=
  nearestInt (x / ulp p x) * ulp p x

/-- The unit is positive, even for zero. -/
theorem ulp_pos (p : ℕ) (x : K) : 0 < ulp p x :=
  zpow_pos two_pos _

/-- Zero is not rounded. -/
@[simp] theorem toNearest_zero (p : ℕ) : toNearest p (0 : K) = 0 := by
  have hzero : nearestInt (0 : K) = 0 := by simpa using nearestInt_intCast (K := K) 0
  rw [toNearest, zero_div, hzero, Int.cast_zero, zero_mul]

/-- Rounding to digits is symmetric too. -/
theorem toNearest_neg (p : ℕ) (x : K) : toNearest p (-x) = -toNearest p x := by
  have hulp : ulp p (-x) = ulp p x := by rw [ulp, ulp, abs_neg]
  rw [toNearest, hulp, neg_div, nearestInt_neg, Int.cast_neg, neg_mul, toNearest]

/-- Rounding is exact on the multiples of the unit. -/
theorem toNearest_of_mul {p : ℕ} {x : K} {k : ℤ} (h : x = k * ulp p x) : toNearest p x = x := by
  have hdiv : x / ulp p x = k := by
    rw [div_eq_iff (ulp_pos p x).ne']
    exact h
  rw [toNearest, hdiv, nearestInt_intCast]
  exact h.symm

section Binades

variable {p : ℕ} {x y : K}

omit [IsStrictOrderedRing K] in
/-- A power of two as a multiple of the unit. -/
theorem two_pow_mul_ulp {k : ℕ} {e : ℤ} (h : e + p = Int.log 2 |x| + 1 + k) :
    ((2 ^ k : ℤ) : K) * ulp p x = 2 ^ e := by
  rw [ulp, Int.cast_pow, Int.cast_ofNat, ← zpow_natCast, ← zpow_add₀ two_ne_zero]
  congr 1
  linarith

/-- Rounding does not leave the binade at its upper end. -/
theorem toNearest_le_zpow (p : ℕ) (hx : 0 < x) :
    toNearest p x ≤ 2 ^ (Int.log 2 x + 1) := by
  have hlt : x < 2 ^ (Int.log 2 |x| + 1) := by
    rw [abs_of_pos hx]
    exact_mod_cast Int.lt_zpow_succ_log_self one_lt_two x
  have hquot : x / ulp p x ≤ ((2 ^ p : ℤ) : K) := by
    rw [div_le_iff₀ (ulp_pos p x), two_pow_mul_ulp rfl]
    exact hlt.le
  have hint := nearestInt_mono hquot
  rw [nearestInt_intCast] at hint
  calc toNearest p x ≤ ((2 ^ p : ℤ) : K) * ulp p x :=
        mul_le_mul_of_nonneg_right (Int.cast_le.mpr hint) (ulp_pos p x).le
    _ = 2 ^ (Int.log 2 x + 1) := by rw [two_pow_mul_ulp rfl, abs_of_pos hx]

/-- Nor at its lower end. -/
theorem zpow_le_toNearest (hp : 0 < p) (hx : 0 < x) : 2 ^ Int.log 2 x ≤ toNearest p x := by
  obtain ⟨q, rfl⟩ := Nat.exists_eq_succ_of_ne_zero hp.ne'
  have hunit : ((2 ^ q : ℤ) : K) * ulp (q + 1) x = 2 ^ Int.log 2 |x| :=
    two_pow_mul_ulp (by push_cast; ring)
  have hle : (2 : K) ^ Int.log 2 |x| ≤ x := by
    rw [abs_of_pos hx]
    exact_mod_cast Int.zpow_log_le_self one_lt_two hx
  have hquot : ((2 ^ q : ℤ) : K) ≤ x / ulp (q + 1) x := by
    rw [le_div_iff₀ (ulp_pos _ x), hunit]
    exact hle
  have hint := nearestInt_mono hquot
  rw [nearestInt_intCast] at hint
  calc (2 : K) ^ Int.log 2 x = ((2 ^ q : ℤ) : K) * ulp (q + 1) x := by
        rw [hunit, abs_of_pos hx]
    _ ≤ toNearest (q + 1) x :=
        mul_le_mul_of_nonneg_right (Int.cast_le.mpr hint) (ulp_pos _ x).le

/-- A positive number is not rounded to zero: there is no underflow. -/
theorem toNearest_pos (hp : 0 < p) (hx : 0 < x) : 0 < toNearest p x :=
  (zpow_pos two_pos _).trans_le (zpow_le_toNearest hp hx)

/-- Rounding of positive numbers: within a binade it is that to integers, and it leaves none. -/
theorem toNearest_le_of_pos (hp : 0 < p) (hx : 0 < x) (hxy : x ≤ y) :
    toNearest p x ≤ toNearest p y := by
  have hy : 0 < y := hx.trans_le hxy
  obtain heq | hlt := (Int.log_mono_right (b := 2) hx hxy).eq_or_lt
  · have hulp : ulp p x = ulp p y := by
      rw [ulp, ulp, abs_of_pos hx, abs_of_pos hy, heq]
    have hint : nearestInt (x / ulp p y) ≤ nearestInt (y / ulp p y) :=
      nearestInt_mono (div_le_div_of_nonneg_right hxy (ulp_pos p y).le)
    rw [toNearest, toNearest, hulp]
    exact mul_le_mul_of_nonneg_right (Int.cast_le.mpr hint) (ulp_pos p y).le
  · calc toNearest p x ≤ 2 ^ (Int.log 2 x + 1) := toNearest_le_zpow p hx
      _ ≤ 2 ^ Int.log 2 y := zpow_le_zpow_right₀ one_le_two hlt
      _ ≤ toNearest p y := zpow_le_toNearest hp hy

/-- Rounding keeps the sign. -/
theorem toNearest_nonneg (hp : 0 < p) (hx : 0 ≤ x) : 0 ≤ toNearest p x := by
  obtain rfl | hx := hx.eq_or_lt
  · rw [toNearest_zero]
  · exact (toNearest_pos hp hx).le

/-- **Rounding is monotone.** -/
theorem toNearest_mono (hp : 0 < p) : Monotone (toNearest p : K → K) := by
  intro x y hxy
  obtain hx | hx := lt_or_ge 0 x
  · exact toNearest_le_of_pos hp hx hxy
  · have hneg : toNearest p x = -toNearest p (-x) := by rw [toNearest_neg, neg_neg]
    rw [hneg]
    obtain hy | hy := lt_or_ge y 0
    · have hle := toNearest_le_of_pos hp (neg_pos.mpr hy) (neg_le_neg hxy)
      rw [toNearest_neg p y] at hle
      exact neg_le.mp hle
    · calc -toNearest p (-x) ≤ 0 :=
            neg_nonpos.mpr (toNearest_nonneg hp (neg_nonneg.mpr hx))
        _ ≤ toNearest p y := toNearest_nonneg hp hy

/-- Only zero is rounded to zero. -/
theorem toNearest_eq_zero_iff (hp : 0 < p) : toNearest p x = 0 ↔ x = 0 := by
  refine ⟨fun h => ?_, fun h => by rw [h, toNearest_zero]⟩
  obtain hx | hx | hx := lt_trichotomy x 0
  · have hpos := toNearest_pos hp (neg_pos.mpr hx)
    rw [toNearest_neg, h, neg_zero] at hpos
    exact absurd hpos (lt_irrefl _)
  · exact hx
  · exact absurd h (toNearest_pos hp hx).ne'

/-- **The relative error of rounding.** -/
theorem abs_toNearest_sub_le (p : ℕ) (x : K) : |toNearest p x - x| ≤ |x| / 2 ^ p := by
  obtain rfl | hx := eq_or_ne x 0
  · simp
  have hunit : ulp p x / 2 ≤ |x| / 2 ^ p := by
    rw [le_div_iff₀ (pow_pos two_pos p)]
    have hpow := two_pow_mul_ulp (p := p) (x := x) rfl
    rw [Int.cast_pow, Int.cast_ofNat, zpow_add_one₀ two_ne_zero] at hpow
    have hlog : (2 : K) ^ Int.log 2 |x| ≤ |x| := by
      exact_mod_cast Int.zpow_log_le_self one_lt_two (abs_pos.mpr hx)
    calc ulp p x / 2 * 2 ^ p = 2 ^ p * ulp p x / 2 := by ring
      _ = 2 ^ Int.log 2 |x| := by rw [hpow]; ring
      _ ≤ |x| := hlog
  have hsplit : toNearest p x - x = (nearestInt (x / ulp p x) - x / ulp p x) * ulp p x := by
    rw [sub_mul, div_mul_cancel₀ _ (ulp_pos p x).ne', toNearest]
  calc |toNearest p x - x|
        = |(nearestInt (x / ulp p x) : K) - x / ulp p x| * ulp p x := by
          rw [hsplit, abs_mul, abs_of_pos (ulp_pos p x)]
    _ ≤ 1 / 2 * ulp p x :=
        mul_le_mul_of_nonneg_right (abs_nearestInt_sub_le _) (ulp_pos p x).le
    _ = ulp p x / 2 := by ring
    _ ≤ |x| / 2 ^ p := hunit

/-- **Rounding is exact on the naturals with `p` digits.** -/
theorem toNearest_natCast {n : ℕ} (hn : n < 2 ^ p) : toNearest p (n : K) = n := by
  obtain rfl | hpos := Nat.eq_zero_or_pos n
  · rw [Nat.cast_zero, toNearest_zero]
  have hlog : Nat.log 2 n < p := Nat.log_lt_of_lt_pow hpos.ne' hn
  obtain ⟨k, hk⟩ := Nat.exists_eq_add_of_lt hlog
  have hulp : ((2 ^ k : ℤ) : K) * ulp p (n : K) = 1 := by
    rw [two_pow_mul_ulp (e := 0), zpow_zero]
    rw [Nat.abs_cast, Int.log_natCast, hk]
    push_cast
    ring
  refine toNearest_of_mul (k := n * 2 ^ k) ?_
  rw [Int.cast_mul, Int.cast_natCast, mul_assoc, hulp, mul_one]

end Binades

end Floating
