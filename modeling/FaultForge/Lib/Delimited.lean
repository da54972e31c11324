import Mathlib.Data.List.Basic

/-!
# Delimited Text

A table is written row by row: the fields of a row with a separator between any two of
them, and a terminator behind every row. As long as no field contains either of the two
characters, the text is read back by splitting it at the terminators and each of its lines
at the separators (`readTable_writeTable`), so that different tables have different texts.

## Main results

* `splitOn_terminated`: lines are found again at their terminators.
* `readTable_writeTable`: a table is read back from its text.
-/

namespace Delimited

variable {α : Type*}

/-- The lines one behind the other, each with a terminator behind it. -/
def terminated (term : α) (lines : List (List α)) : List α :=
  lines.flatMap (· ++ [term])

/-- The text of a table. -/
def writeTable (sep term : α) (rows : List (List (List α))) : List α :=
  terminated term (rows.map [sep].intercalate)

/-- The table of a text: what stands behind the last terminator is no row. -/
def readTable [BEq α] (sep term : α) (text : List α) : List (List (List α)) :=
  (text.splitOn term).dropLast.map (·.splitOn sep)

variable {sep term : α}

/-- Fields without the terminator make a line without it. -/
theorem notMem_intercalate {x : α} {fields : List (List α)} (hsep : x ≠ sep)
    (h : ∀ f ∈ fields, x ∉ f) : x ∉ [sep].intercalate fields := by
  induction fields with
  | nil => simp
  | cons f fields ih =>
      have hf := h f (List.mem_cons_self ..)
      have hrest := ih fun f hf => h f (List.mem_cons_of_mem _ hf)
      cases fields with
      | nil => simpa using hf
      | cons f' fields =>
          rw [List.intercalate_cons_cons]
          simp [hf, hsep, hrest]

variable [BEq α] [LawfulBEq α]

/-- **Lines are found again** when none of them contains the terminator. -/
theorem splitOn_terminated {lines : List (List α)} (h : ∀ l ∈ lines, term ∉ l) :
    (terminated term lines).splitOn term = lines ++ [[]] := by
  induction lines with
  | nil => rfl
  | cons l lines ih =>
      have hl := h l (List.mem_cons_self ..)
      rw [terminated, List.flatMap_cons, List.append_assoc, List.singleton_append,
        List.splitOn_append_cons_self_of_not_mem hl, List.cons_append]
      exact congrArg (l :: ·) (ih fun l hl => h l (List.mem_cons_of_mem _ hl))

/-- **A table is read back from its text** when none of its rows is empty and none of its
fields contains the separator or the terminator. -/
theorem readTable_writeTable {rows : List (List (List α))} (hne : term ≠ sep)
    (hrows : ∀ row ∈ rows, row ≠ []) (hsep : ∀ row ∈ rows, ∀ f ∈ row, sep ∉ f)
    (hterm : ∀ row ∈ rows, ∀ f ∈ row, term ∉ f) :
    readTable sep term (writeTable sep term rows) = rows := by
  have hlines : ∀ l ∈ rows.map [sep].intercalate, term ∉ l := by
    intro l hl
    obtain ⟨row, hrow, rfl⟩ := List.mem_map.mp hl
    exact notMem_intercalate hne (hterm row hrow)
  rw [readTable, writeTable, splitOn_terminated hlines, List.dropLast_concat, List.map_map]
  refine (List.map_congr_left fun row hrow => ?_).trans (List.map_id rows)
  exact List.splitOn_intercalate sep (hsep row hrow) (hrows row hrow)

end Delimited
