import Mathlib.Data.List.Induction
import Mathlib.Logic.Function.Basic

/-!
# Write Logs

A memory is a function from addresses to values, and a log is the list of the writes that
are made to it one after the other. Replaying a log leaves in each cell the value of the
last write to it, and what was there before if there is none (`replay_apply`).

## Main results

* `replay_apply`: what a cell holds after a log.
-/

namespace WriteLog

variable {α β : Type*} [DecidableEq α]

/-- Make the writes of a log. -/
def replay (log : List (α × β)) (mem : α → β) : α → β :=
  log.foldl (fun m w => Function.update m w.1 w.2) mem

/-- The value of the last write to the cell. -/
def lastWrite (a : α) (log : List (α × β)) : Option β :=
  log.foldl (fun last w => if w.1 = a then some w.2 else last) none

/-- **What a cell holds after a log.** -/
theorem replay_apply (log : List (α × β)) (mem : α → β) (a : α) :
    replay log mem a = (lastWrite a log).getD (mem a) := by
  rw [replay, lastWrite]
  induction log using List.reverseRecOn with
  | nil => rfl
  | append_singleton log w ih =>
      simp only [List.foldl_append, List.foldl_cons, List.foldl_nil]
      by_cases hw : w.1 = a
      · rw [if_pos hw, ← hw, Function.update_self, Option.getD_some]
      · rw [if_neg hw, Function.update_of_ne (Ne.symm hw), ih]

/-- A cell still holds a value exactly when the last write to it, if any, wrote that value. -/
theorem replay_apply_eq_iff {log : List (α × β)} {mem : α → β} {a : α} {b : β}
    (hmem : mem a = b) : replay log mem a = b ↔ ∀ v, lastWrite a log = some v → v = b := by
  rw [replay_apply, hmem]
  cases lastWrite a log <;> simp

/-- A cell that no write of the log is made to. -/
theorem lastWrite_eq_none {a : α} {log : List (α × β)} (h : ∀ w ∈ log, w.1 ≠ a) :
    lastWrite a log = none := by
  rw [lastWrite]
  induction log with
  | nil => rfl
  | cons w log ih =>
      rw [List.forall_mem_cons] at h
      rw [List.foldl_cons, if_neg h.1]
      exact ih h.2

end WriteLog
