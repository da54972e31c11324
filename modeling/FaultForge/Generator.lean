import FaultForge.Lib.Congruential
import FaultForge.Wire

/-!
# The Period of the Generator

The campaign's generator is the congruential generator of `FaultForge.Lib.Congruential`
modulo `2 ^ 32`, with a multiplier that is one modulo four and an odd increment
(`after_modEq`). From every state it comes back after `2 ^ 32` draws and not before
(`after_eq_self_iff`), so it goes through all states, and no draw can merge two of them.
The mixing of the seed has an inverse as well.

## Main results

* `after_eq_self_iff`: when the generator is back at a state.
* `full_period`: every value is drawn once in `2 ^ 32` draws, and seeds stay apart.
-/

namespace FaultForge

namespace Lcg

/-- The generator after a number of draws. -/
def after (g : Lcg) (k : ℕ) : Lcg :=
  (fun g => g.nextU32.2)^[k] g

/-- A generator is its state. -/
theorem eq_of_state {g g' : Lcg} (h : g.state = g'.state) : g = g' := by
  cases g
  cases g'
  exact congrArg Lcg.mk h

/-- Draws in two parts. -/
theorem after_add (g : Lcg) (j k : ℕ) : g.after (j + k) = (g.after j).after k := by
  rw [after, Nat.add_comm, Function.iterate_add_apply]
  rfl

/-- One more draw. -/
theorem after_succ (g : Lcg) (k : ℕ) : g.after (k + 1) = (g.after k).nextU32.2 :=
  g.after_add k 1

/-- The states are those of the congruential generator. -/
theorem after_modEq (g : Lcg) (k : ℕ) :
    ((g.after k).state.toNat : ℤ) ≡
      (Congruential.step 1103515245 12345)^[k] g.state.toNat [ZMOD 2 ^ 32] := by
  induction k with
  | zero => rfl
  | succ k ih =>
      have hdraw : ((g.after (k + 1)).state.toNat : ℤ) =
          (1103515245 * (g.after k).state.toNat + 12345) % 2 ^ 32 := by
        rw [after_succ, nextU32, UInt32.toNat_add, UInt32.toNat_mul]
        push_cast
        omega
      rw [hdraw, Function.iterate_succ_apply', Congruential.step]
      exact (Int.mod_modEq _ _).trans ((ih.mul_left _).add_right _)

/-- **When the generator is back at a state**: after the multiples of `2 ^ 32` draws. -/
theorem after_eq_self_iff (g : Lcg) (k : ℕ) : g.after k = g ↔ 2 ^ 32 ∣ k := by
  have hperiod := Congruential.iterate_step_modEq_iff (a := 1103515245) (c := 12345) (m := 32)
    (n := k) (by decide) (by decide) g.state.toNat
  have hlt : ∀ s : UInt32, (s.toNat : ℤ) % 2 ^ 32 = s.toNat := fun s =>
    Int.emod_eq_of_lt (Int.natCast_nonneg _) (by exact_mod_cast s.toNat_lt)
  rw [← hperiod]
  constructor
  · intro h
    exact (h ▸ g.after_modEq k).symm
  · intro h
    have hmod := (g.after_modEq k).trans h
    rw [Int.ModEq, hlt, hlt, Int.natCast_inj, UInt32.toNat_inj] at hmod
    exact eq_of_state hmod

/-- Within `2 ^ 32` draws no state comes twice. -/
theorem after_injOn (g : Lcg) {i j : ℕ} (hi : i < 2 ^ 32) (hj : j < 2 ^ 32)
    (h : g.after i = g.after j) : i = j := by
  wlog hle : i ≤ j generalizing i j
  · exact (this hj hi h.symm (by omega)).symm
  · obtain ⟨d, rfl⟩ := Nat.exists_eq_add_of_le hle
    rw [after_add] at h
    have hd := Nat.eq_zero_of_dvd_of_lt ((after_eq_self_iff _ d).mp h.symm) (by omega)
    omega

/-- Draws can be taken back, so two generators that meet have been one all along. -/
theorem after_injective (k : ℕ) {g g' : Lcg} (h : g.after k = g'.after k) : g = g' := by
  have hback : ∀ g : Lcg, (g.after k).after (2 ^ 32 * k - k) = g := by
    intro g
    rw [← after_add, Nat.add_sub_cancel' (Nat.le_mul_of_pos_left k (by decide))]
    exact (g.after_eq_self_iff _).mpr (Nat.dvd_mul_right _ k)
  rw [← hback g, h, hback]

/-- Different seeds are mixed into different states. -/
theorem new_injective {seed seed' : UInt32} (h : new seed = new seed') : seed = seed' := by
  -- the inverse of the multiplier
  have hinv : (1664525 : UInt32) * 4276115653 = 1 := by decide
  have hmul := (UInt32.add_left_inj _).mp (congrArg Lcg.state h)
  rw [← UInt32.mul_one seed, ← UInt32.mul_one seed', ← hinv, ← UInt32.mul_assoc, hmul,
    UInt32.mul_assoc]

/-- **The generator has full period and never merges seeds.** From every state, each value
is returned by exactly one of `2 ^ 32` consecutive draws; and generators with different
seeds are in different states after any number of draws. -/
theorem full_period :
    (∀ (g : Lcg) (v : UInt32), ∃! k, k < 2 ^ 32 ∧ (g.after k).nextU32.1 = v) ∧
    ∀ seed seed', seed ≠ seed' → ∀ k, (new seed).after k ≠ (new seed').after k := by
  refine ⟨fun g v => ?_, fun seed seed' hne k h => hne (new_injective (after_injective k h))⟩
  have hinj : Function.Injective fun i : Fin (2 ^ 32) => (g.after i).nextU32.1.toFin := by
    intro i j h
    have hstate : (g.after (i + 1)).state = (g.after (j + 1)).state := by
      rw [after_succ, after_succ]
      exact UInt32.toFin_inj.mp h
    have hafter : (g.after 1).after i = (g.after 1).after j := by
      rw [← after_add, ← after_add, Nat.add_comm 1, Nat.add_comm 1]
      exact eq_of_state hstate
    exact Fin.ext ((g.after 1).after_injOn i.isLt j.isLt hafter)
  -- as many draws as values
  obtain ⟨k, hk⟩ := Finite.injective_iff_surjective.mp hinj v.toFin
  refine ⟨k, ⟨k.isLt, UInt32.toFin_inj.mp hk⟩, ?_⟩
  rintro j ⟨hj, rfl⟩
  exact congrArg Fin.val (@hinj ⟨j, hj⟩ k hk.symm)

end Lcg

end FaultForge
