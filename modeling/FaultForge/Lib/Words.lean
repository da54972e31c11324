import Mathlib.Data.List.DropRight
import Mathlib.Data.List.Induction

/-!
# The Words of a Text

The words of a text are its longest pieces without a separator. They are found by cutting
at every separator and leaving out the empty pieces, so separators around the text make no
difference (`words_trim`), and their number is that of the places where a word starts
(`length_words`). Between two words there is a separator, which bounds their number by half
the length of the text (`two_mul_starts_le`).

## Main results

* `words_trim`: a text has the same words without the separators around it.
* `length_words`: the words are counted where they start.
-/

namespace Words

variable {α : Type*} (sep : α → Bool)

/-- Cut at every separator, and leave out the empty pieces. -/
def words (s : List α) : List (List α) :=
  (s.splitOnP sep).filter fun w => !w.isEmpty

/-- Leave out the separators before and behind the text. -/
def trim (s : List α) : List α :=
  (s.dropWhile sep).rdropWhile sep

/-- The places where a word starts: those of the elements that are no separators and stand
behind one, or at the start when `outside` says so. -/
def starts (outside : Bool) : List α → ℕ
  | [] => 0
  | x :: s => (if outside && !sep x then 1 else 0) + starts (sep x) s

variable {sep}

/-- The empty text has no words. -/
theorem words_nil : words sep [] = [] := rfl

/-- A separator ends a word. -/
theorem words_append_cons {c : α} (hc : sep c) (s t : List α) :
    words sep (s ++ c :: t) = words sep s ++ words sep t := by
  rw [words, List.splitOnP_append_cons s t hc, List.filter_append]
  rfl

/-- A separator in front does not matter. -/
theorem words_cons {c : α} (hc : sep c) (s : List α) : words sep (c :: s) = words sep s :=
  words_append_cons hc [] s

/-- A separator at the end does not matter. -/
theorem words_concat {c : α} (hc : sep c) (s : List α) : words sep (s ++ [c]) = words sep s := by
  rw [words_append_cons hc, words_nil, List.append_nil]

/-- Nor do several in front. -/
theorem words_dropWhile (s : List α) : words sep (s.dropWhile sep) = words sep s := by
  induction s with
  | nil => rfl
  | cons c s ih =>
      by_cases hc : sep c
      · rw [List.dropWhile_cons_of_pos hc, ih, words_cons hc]
      · rw [List.dropWhile_cons_of_neg hc]

/-- Nor do several at the end. -/
theorem words_rdropWhile (s : List α) : words sep (s.rdropWhile sep) = words sep s := by
  induction s using List.reverseRecOn with
  | nil => rfl
  | append_singleton s c ih =>
      by_cases hc : sep c
      · rw [List.rdropWhile_concat_pos _ _ _ hc, ih, words_concat hc]
      · rw [List.rdropWhile_concat_neg _ _ _ hc]

/-- **Separators around a text make no difference.** -/
theorem words_trim (s : List α) : words sep (trim sep s) = words sep s := by
  rw [trim, words_rdropWhile, words_dropWhile]

/-- Behind a separator a word may begin. -/
theorem starts_cons_of_sep {c : α} (hc : sep c = true) (outside : Bool) (s : List α) :
    starts sep outside (c :: s) = starts sep true s := by
  simp [starts, hc]

/-- A letter begins a word unless it is inside one. -/
theorem starts_cons {c : α} (hc : sep c = false) (outside : Bool) (s : List α) :
    starts sep outside (c :: s) = (if outside then 1 else 0) + starts sep false s := by
  simp [starts, hc]

/-- Of the pieces of a text, all that are not empty start in it, apart from the first one
when it only goes on there. -/
theorem exists_splitOnP_starts (s : List α) :
    ∃ w ws, s.splitOnP sep = w :: ws ∧
      starts sep true s = (w :: ws).countP (fun w => !w.isEmpty) ∧
      starts sep false s = ws.countP fun w => !w.isEmpty := by
  induction s with
  | nil => exact ⟨[], [], rfl, rfl, rfl⟩
  | cons c s ih =>
      obtain ⟨w, ws, hsplit, hout, hin⟩ := ih
      rw [List.splitOnP_cons_eq_if_modifyHead, hsplit]
      cases hc : sep c with
      | true =>
          refine ⟨[], w :: ws, rfl, ?_, ?_⟩
          · rw [starts_cons_of_sep hc, hout]
            rfl
          · rw [starts_cons_of_sep hc, hout]
      | false =>
          refine ⟨c :: w, ws, rfl, ?_, ?_⟩
          · rw [starts_cons hc, hin, List.countP_cons_of_pos rfl, if_pos rfl, Nat.add_comm]
          · rw [starts_cons hc, hin, if_neg Bool.false_ne_true, Nat.zero_add]

/-- **The words are counted where they start.** -/
theorem length_words (s : List α) : (words sep s).length = starts sep true s := by
  obtain ⟨w, ws, hsplit, hout, -⟩ := @exists_splitOnP_starts _ sep s
  rw [words, hsplit, hout, List.countP_eq_length_filter]

/-- Between two words there is a separator. -/
theorem two_mul_starts_le (s : List α) :
    2 * starts sep true s ≤ s.length + 1 ∧ 2 * starts sep false s ≤ s.length := by
  induction s with
  | nil => exact ⟨Nat.zero_le _, Nat.zero_le _⟩
  | cons c s ih =>
      rw [List.length_cons]
      cases hc : sep c with
      | true =>
          rw [starts_cons_of_sep hc, starts_cons_of_sep hc]
          omega
      | false =>
          rw [starts_cons hc, starts_cons hc, if_pos rfl, if_neg Bool.false_ne_true]
          omega

end Words
