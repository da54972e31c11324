import Mathlib.Data.List.Induction

/-!
# Batches

Chunks of items come in one after the other. They are gathered, and whenever what has been
gathered is full after a chunk, it is closed as a batch and the next one begins empty. A chunk is
never divided, and nothing is asked of `full`.

## Main results

* `flatten_cut`: put end to end, the batches and what has been gathered since are the chunks.
* `full_of_mem_cut`: every batch is full.
-/

namespace Batching

variable {α : Type*} (full : List α → Bool)

/-- The batches, and what has been gathered since the last one, after one chunk more. -/
def add (s : List (List α) × List α) (chunk : List α) : List (List α) × List α :=
  if full (s.2 ++ chunk) then (s.1 ++ [s.2 ++ chunk], []) else (s.1, s.2 ++ chunk)

/-- The batches, and what has been gathered since the last one. -/
def cut (chunks : List (List α)) : List (List α) × List α :=
  chunks.foldl (add full) ([], [])

/-- Nothing gives no batch. -/
@[simp] theorem cut_nil : cut full [] = ([], []) := rfl

/-- A further chunk is added to the last batch. -/
theorem cut_concat (chunks : List (List α)) (chunk : List α) :
    cut full (chunks ++ [chunk]) = add full (cut full chunks) chunk := by
  rw [cut, List.foldl_append, ← cut, List.foldl_cons, List.foldl_nil]

/-- **Nothing is lost**: put end to end, the batches and what has been gathered since are the
chunks. -/
theorem flatten_cut (chunks : List (List α)) :
    (cut full chunks).1.flatten ++ (cut full chunks).2 = chunks.flatten := by
  induction chunks using List.reverseRecOn with
  | nil => rfl
  | append_singleton chunks chunk ih =>
      rw [cut_concat, add, List.flatten_append, ← ih]
      split
      · simp
      · simp

/-- **Every batch is full**. -/
theorem full_of_mem_cut {chunks : List (List α)} {batch : List α}
    (h : batch ∈ (cut full chunks).1) : full batch = true := by
  induction chunks using List.reverseRecOn with
  | nil => exact absurd h List.not_mem_nil
  | append_singleton chunks chunk ih =>
      rw [cut_concat, add] at h
      split at h
      · next hfull =>
        rcases List.mem_append.mp h with h | h
        · exact ih h
        · rwa [List.mem_singleton.mp h]
      · exact ih h

/-- What has been gathered is not full, unless nothing already is. -/
theorem not_full_cut (hempty : full [] = false) (chunks : List (List α)) :
    full (cut full chunks).2 = false := by
  induction chunks using List.reverseRecOn with
  | nil => exact hempty
  | append_singleton chunks chunk ih =>
      rw [cut_concat, add]
      split
      · exact hempty
      · next hfull => exact Bool.eq_false_iff.mpr hfull

end Batching
