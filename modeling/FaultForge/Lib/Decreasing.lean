import Mathlib.Data.List.Basic
import Mathlib.Logic.Relation

/-!
# Systems that Run Down

A step relation **runs down** on the states that satisfy an invariant if its steps keep the
invariant and decrease a measure. Then no run is longer than the measure of the state it starts
from. So every state reaches one without a further step, however the steps are chosen; and when
every state that is not a goal has a step, all runs that cannot be continued have reached a goal.

* `RunsDown.length_le` — the bound on the length of a run;
* `RunsDown.exists_final` — every state reaches a final one;
* `RunsDown.goal_of_final` — the final states reached are goals.
-/

namespace Decreasing

variable {σ : Type*} {step : σ → σ → Prop} {inv : σ → Prop} {measure : σ → ℕ} {s t : σ}

/-- The steps from states that satisfy the invariant keep it, and decrease the measure. -/
structure RunsDown (step : σ → σ → Prop) (inv : σ → Prop) (measure : σ → ℕ) : Prop where
  keeps : ∀ s t, inv s → step s t → inv t
  decreases : ∀ s t, inv s → step s t → measure t < measure s

/-- No step is possible. -/
def Final (step : σ → σ → Prop) (s : σ) : Prop :=
  ∀ t, ¬ step s t

namespace RunsDown

variable (h : RunsDown step inv measure)
include h

/-- A run keeps the invariant. -/
theorem inv_of_run (hs : inv s) (hrun : Relation.ReflTransGen step s t) : inv t := by
  induction hrun with
  | refl => exact hs
  | tail _ hstep ih => exact h.keeps _ _ ih hstep

/-- **A run is no longer than the measure it uses up.** -/
theorem length_le {run : ℕ → σ} {n : ℕ} (hs : inv (run 0))
    (hrun : ∀ i < n, step (run i) (run (i + 1))) :
    inv (run n) ∧ measure (run n) + n ≤ measure (run 0) := by
  induction n with
  | zero => exact ⟨hs, Nat.le_refl _⟩
  | succ n ih =>
      obtain ⟨hinv, hbefore⟩ := ih fun i hi => hrun i (Nat.lt_succ_of_lt hi)
      have hlast := hrun n (Nat.lt_succ_self n)
      have hless := h.decreases _ _ hinv hlast
      exact ⟨h.keeps _ _ hinv hlast, by omega⟩

/-- **Every state reaches a final one.** -/
theorem exists_final (hs : inv s) : ∃ t, Relation.ReflTransGen step s t ∧ Final step t := by
  induction hn : measure s using Nat.strongRecOn generalizing s with
  | ind n ih =>
      by_cases hfinal : Final step s
      · exact ⟨s, .refl, hfinal⟩
      · obtain ⟨t, ht⟩ := not_forall_not.mp hfinal
        obtain ⟨u, hu, hend⟩ := ih (measure t) (hn ▸ h.decreases s t hs ht) (h.keeps s t hs ht) rfl
        exact ⟨u, .head ht hu, hend⟩

/-- **Where runs end**: if a step is possible in every state that is no goal, a run that cannot
be continued has reached a goal. -/
theorem goal_of_final {goal : σ → Prop} (hmove : ∀ s, inv s → ¬ goal s → ∃ t, step s t)
    (hs : inv s) (hrun : Relation.ReflTransGen step s t) (hfinal : Final step t) : goal t := by
  by_contra hgoal
  obtain ⟨u, hu⟩ := hmove t (h.inv_of_run hs hrun) hgoal
  exact hfinal u hu

end RunsDown

end Decreasing
