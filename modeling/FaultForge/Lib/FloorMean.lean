import Mathlib.Algebra.BigOperators.Group.List.Basic
import Mathlib.Algebra.GroupWithZero.Nat
import Mathlib.Algebra.Order.BigOperators.Group.List
import Mathlib.Algebra.Order.Group.Nat

/-!
# Means in Integer Arithmetic

The mean of a list of counts, rounded down, lies between any two bounds of its elements.
It is the quotient of the sum by the number of the elements: a divisor that is one too
small adds the quotient once more to the remainder, and what that makes is seen, after
a second rounding to another scale, unless it is less than a step of the scale
(`scale_div_eq_iff`).

## Main results

* `le_mean`, `mean_le`: the mean lies between bounds of the elements.
* `scale_div_eq_iff`: when a divisor that is one too small gives the same scaled mean.
-/

namespace FloorMean

/-- The mean, rounded down. -/
def mean (l : List ℕ) : ℕ :=
  l.sum / l.length

/-- The mean is no smaller than a lower bound of the numbers. -/
theorem le_mean {l : List ℕ} {lo : ℕ} (hl : l ≠ []) (h : ∀ x ∈ l, lo ≤ x) : lo ≤ mean l := by
  rw [mean, Nat.le_div_iff_mul_le (List.length_pos_iff.mpr hl), Nat.mul_comm]
  exact List.card_nsmul_le_sum l lo h

/-- It is no larger than an upper bound. -/
theorem mean_le {l : List ℕ} {hi : ℕ} (h : ∀ x ∈ l, x ≤ hi) : mean l ≤ hi := by
  refine Nat.div_le_of_le_mul ?_
  exact List.sum_le_card_nsmul l hi h

/-! ### A divisor that is one too small -/

/-- What dividing by `k` in place of `k + 1` adds. -/
theorem div_eq_div_succ_add (s : ℕ) {k : ℕ} (hk : 0 < k) :
    s / k = s / (k + 1) + (s / (k + 1) + s % (k + 1)) / k := by
  have hs : s = s / (k + 1) + s % (k + 1) + k * (s / (k + 1)) := by
    have := Nat.div_add_mod s (k + 1)
    rw [Nat.add_mul, Nat.one_mul] at this
    omega
  calc s / k = (s / (k + 1) + s % (k + 1) + k * (s / (k + 1))) / k := by rw [← hs]
    _ = s / (k + 1) + (s / (k + 1) + s % (k + 1)) / k := by
      rw [Nat.add_mul_div_left _ _ hk, Nat.add_comm]

/-! ### Scaling -/

/-- The count on a scale where `b` counts are `a` units, rounded down. -/
def scale (a b n : ℕ) : ℕ :=
  n * a / b

/-- Scaling is monotone. -/
theorem scale_mono {a b m n : ℕ} (h : m ≤ n) : scale a b m ≤ scale a b n :=
  Nat.div_le_div_right (Nat.mul_le_mul_right a h)

variable {a b : ℕ}

/-- The scale ends at `a`. -/
theorem scale_le {n : ℕ} (h : n ≤ b) : scale a b n ≤ a :=
  Nat.div_le_of_le_mul (Nat.mul_le_mul_right a h)

/-- The next count has the same scaled value when there is room up to the next unit. -/
theorem scale_succ_eq_iff (hb : 0 < b) (n : ℕ) :
    scale a b (n + 1) = scale a b n ↔ n * a % b + a < b := by
  have hsucc : scale a b (n + 1) = n * a / b + (n * a % b + a) / b := by
    have hdiv := Nat.div_add_mod (n * a) b
    rw [scale, Nat.add_mul, Nat.one_mul]
    calc (n * a + a) / b = (n * a % b + a + b * (n * a / b)) / b := by congr 1; omega
      _ = n * a / b + (n * a % b + a) / b := by rw [Nat.add_mul_div_left _ _ hb, Nat.add_comm]
  rw [hsucc, scale, Nat.add_eq_left, Nat.div_eq_zero_iff_lt hb]

/-- A unit is less than two counts, so two counts further the scaled value is larger. -/
theorem scale_lt_of_add_two_le (hb : 0 < b) (hab : b ≤ 2 * a) {m n : ℕ} (h : m + 2 ≤ n) :
    scale a b m < scale a b n := by
  calc scale a b m < (m * a + b) / b := by rw [Nat.add_div_right _ hb]; exact Nat.lt_succ_self _
    _ ≤ scale a b n := by
      refine Nat.div_le_div_right ?_
      calc m * a + b ≤ (m + 2) * a := by rw [Nat.add_mul]; omega
        _ ≤ n * a := Nat.mul_le_mul_right a h

/-- **When a divisor that is one too small gives the same scaled mean.** With `q` and `r`
the quotient and the remainder of the right division, either the two quotients are the
same, or they are neighbours within a unit. -/
theorem scale_div_eq_iff (hb : 0 < b) (hab : b ≤ 2 * a) (s : ℕ) {k : ℕ} (hk : 0 < k) :
    scale a b (s / k) = scale a b (s / (k + 1)) ↔
      s / (k + 1) + s % (k + 1) < k ∨
        s / (k + 1) + s % (k + 1) < 2 * k ∧ s / (k + 1) * a % b + a < b := by
  rw [div_eq_div_succ_add s hk]
  generalize s / (k + 1) = q
  generalize q + s % (k + 1) = t
  rcases Nat.lt_or_ge t k with hlt | hge
  · simp [Nat.div_eq_of_lt hlt, hlt]
  · rcases Nat.lt_or_ge t (2 * k) with hlt' | hge'
    · have hone : t / k = 1 := Nat.div_eq_of_lt_le (by omega) (by omega)
      rw [hone, scale_succ_eq_iff hb]
      simp [hlt', Nat.not_lt.mpr hge]
    · have htwo : 2 ≤ t / k := (Nat.le_div_iff_mul_le hk).mpr hge'
      have hne := (scale_lt_of_add_two_le hb hab (Nat.add_le_add_left htwo q)).ne'
      simp [hne, Nat.not_lt.mpr hge, Nat.not_lt.mpr hge']

end FloorMean
