import Mathlib.NumberTheory.Multiplicity
import Mathlib.Tactic.LinearCombination

/-!
# Linear Congruential Generators

The affine map `x ↦ a * x + c` on the integers, read modulo a power of two. After `n` steps
a start value has moved by an odd number times the geometric sum of `a` when `c` is odd and
four divides `a - 1` (`iterate_step_sub`), and that sum is divisible by `2 ^ m` exactly when
`n` is (`two_pow_dvd_geom_sum_iff`). So the generator comes back to where it started after a
multiple of `2 ^ m` steps and at no other time.

## Main results

* `iterate_step_modEq_iff`: when the generator is back at its start value.
-/

namespace Congruential

open Finset

/-- One step of the generator with multiplier `a` and increment `c`. -/
def step (a c x : ℤ) : ℤ :=
  a * x + c

variable {a c : ℤ} {m n : ℕ}

/-- The generator after `n` steps. -/
theorem iterate_step (a c x : ℤ) (n : ℕ) :
    (step a c)^[n] x = a ^ n * x + c * ∑ i ∈ range n, a ^ i := by
  induction n with
  | zero => simp
  | succ n ih =>
      rw [Function.iterate_succ_apply', ih, step, geom_sum_succ]
      ring

/-- How far the generator is from its start value after `n` steps. -/
theorem iterate_step_sub (a c x : ℤ) (n : ℕ) :
    (step a c)^[n] x - x = ((a - 1) * x + c) * ∑ i ∈ range n, a ^ i := by
  rw [iterate_step]
  linear_combination -x * geom_sum_mul a n

/-- **The geometric sum** of a number that is one modulo four has as many factors of two as
its number of terms. -/
theorem two_pow_dvd_geom_sum_iff (ha : 4 ∣ a - 1) :
    (2 : ℤ) ^ m ∣ ∑ i ∈ range n, a ^ i ↔ 2 ^ m ∣ n := by
  have hnat : (2 : ℤ) ^ m ∣ (n : ℤ) ↔ 2 ^ m ∣ n := by exact_mod_cast Iff.rfl
  rcases eq_or_ne a 1 with rfl | hne
  · simpa using hnat
  · have hodd : ¬ 2 ∣ a := by omega
    have hlift := Int.two_pow_sub_pow' n (by simpa using ha) hodd
    rw [one_pow, ← geom_sum_mul, emultiplicity_mul Int.prime_two, add_comm] at hlift
    -- both sides have the factors of `a - 1` besides
    have hfin : FiniteMultiplicity 2 (a - 1) :=
      Int.finiteMultiplicity_iff.mpr ⟨by decide, sub_ne_zero.mpr hne⟩
    have hsame := WithTop.add_left_cancel
      (finiteMultiplicity_iff_emultiplicity_ne_top.mp hfin) hlift
    rw [← hnat, pow_dvd_iff_le_emultiplicity, pow_dvd_iff_le_emultiplicity, hsame]

/-- **When the generator is back at its start value** modulo `2 ^ m`: after the multiples of
`2 ^ m` steps. -/
theorem iterate_step_modEq_iff (ha : 4 ∣ a - 1) (hc : Odd c) (x : ℤ) :
    (step a c)^[n] x ≡ x [ZMOD 2 ^ m] ↔ 2 ^ m ∣ n := by
  have hodd : ¬ 2 ∣ (a - 1) * x + c := by
    have heven : Even (a - 1) := even_iff_two_dvd.mpr (dvd_trans (by decide) ha)
    rw [← even_iff_two_dvd, Int.not_even_iff_odd]
    exact (heven.mul_right x).add_odd hc
  rw [Int.modEq_comm, Int.modEq_iff_dvd, iterate_step_sub, ← two_pow_dvd_geom_sum_iff ha]
  exact ⟨Int.prime_two.pow_dvd_of_dvd_mul_left m hodd, fun h => h.mul_left _⟩

end Congruential
