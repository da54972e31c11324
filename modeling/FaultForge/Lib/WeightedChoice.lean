import Mathlib.Algebra.BigOperators.Group.List.Basic
import Mathlib.Algebra.GroupWithZero.Nat
import Mathlib.Order.Interval.Finset.Nat

/-!
# Weighted Choice

A draw is turned into one of several items by walking the items' weights: the draw falls
inside the first weight that exceeds it, and each weight that it does not fall inside is
subtracted from it. In other words, item `j` is chosen for the draws between the sum of the
weights before it and the sum of the weights up to it (`choose_eq_some_iff`).

## Main results

* `isSome_choose_iff`: an item is chosen iff the draw is below the sum of all weights.
* `card_draws`: an item is chosen for as many draws as its weight says.
-/

namespace WeightedChoice

/-- The position of the weight that the draw falls inside. -/
def choose : ℕ → List ℕ → Option ℕ
  | _, [] => none
  | r, w :: ws => if r < w then some 0 else (choose (r - w) ws).map (· + 1)

variable {r j w : ℕ} {ws : List ℕ}

/-- **The draws of an item** are those between two sums of weights. -/
theorem choose_eq_some_iff :
    choose r ws = some j ↔ (ws.take j).sum ≤ r ∧ r < (ws.take (j + 1)).sum := by
  induction ws generalizing r j with
  | nil => simp [choose]
  | cons w ws ih =>
      rw [choose]
      split
      · next hr =>
        cases j with
        | zero => simp [hr]
        | succ j =>
            have hfar : ¬ (w :: ws.take j).sum ≤ r := by
              rw [List.sum_cons]
              omega
            simpa using fun h => absurd h hfar
      · next hr =>
        cases j with
        | zero => simp [Nat.le_of_not_lt hr]
        | succ j =>
            have hmap : (choose (r - w) ws).map (· + 1) = some (j + 1) ↔
                choose (r - w) ws = some j := by
              simp [Option.map_eq_some_iff]
            rw [hmap, ih, List.take_succ_cons, List.take_succ_cons, List.sum_cons, List.sum_cons]
            omega

/-- Something is chosen iff the number is below the sum of the weights. -/
theorem isSome_choose_iff : (choose r ws).isSome = true ↔ r < ws.sum := by
  induction ws generalizing r with
  | nil => simp [choose]
  | cons w ws ih =>
      rw [choose, List.sum_cons]
      split
      · next hr => simpa using Nat.lt_add_right _ hr
      · next hr =>
        rw [Option.isSome_map, ih]
        omega

/-- An item that is chosen has a positive weight. -/
theorem pos_of_choose (h : choose r ws = some j) : ∃ w, ws[j]? = some w ∧ 0 < w := by
  obtain ⟨hle, hlt⟩ := choose_eq_some_iff.mp h
  by_cases hj : j < ws.length
  · rw [List.sum_take_succ ws j hj] at hlt
    exact ⟨ws[j], List.getElem?_eq_getElem hj, by omega⟩
  · rw [List.take_of_length_le (by omega)] at hle hlt
    omega

/-- **The choice is proportional**: of the draws below the sum of all weights, an item is
chosen for as many as its weight. -/
theorem card_draws (hj : ws[j]? = some w) :
    ((Finset.range ws.sum).filter fun r => choose r ws = some j).card = w := by
  obtain ⟨hlt, rfl⟩ := List.getElem?_eq_some_iff.mp hj
  have hstep : (ws.take (j + 1)).sum = (ws.take j).sum + ws[j] := List.sum_take_succ ws j hlt
  have hdraws : (Finset.range ws.sum).filter (fun r => choose r ws = some j) =
      Finset.Ico (ws.take j).sum (ws.take (j + 1)).sum := by
    ext r
    rw [Finset.mem_filter, Finset.mem_range, Finset.mem_Ico, choose_eq_some_iff]
    exact and_iff_right_of_imp fun h =>
      isSome_choose_iff.mp (by rw [choose_eq_some_iff.mpr h]; rfl)
  rw [hdraws, Nat.card_Ico, hstep, Nat.add_sub_cancel_left]

end WeightedChoice
