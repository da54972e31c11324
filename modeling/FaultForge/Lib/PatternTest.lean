import Mathlib.Logic.Function.Basic

/-!
# Pattern Tests

A memory may be defective in two ways: its decoder may select the wrong cell for an address, and
a cell may keep something else than the value written to it. A pattern test writes one pattern to
a list of addresses, and only then reads it back from all of them. So it finds out whether the
cells selected keep this pattern (`forall_read_fill_iff`), and it finds out nothing about the
decoder, nor about any other value.
-/

namespace PatternTest

variable {α β γ : Type*}

/-- What a memory makes of addresses and of values. -/
structure Defects (α β γ : Type*) where
  decode : α → γ
  keep : γ → β → β

namespace Defects

/-- A memory without defects. -/
def intact : Defects γ β γ := ⟨id, fun _ b => b⟩

variable [DecidableEq γ] (d : Defects α β γ)

/-- Write to an address: the decoder selects a cell, which keeps what it can. -/
def write (mem : γ → β) (a : α) (b : β) : γ → β :=
  Function.update mem (d.decode a) (d.keep (d.decode a) b)

/-- Read the cell that the decoder selects. -/
def read (mem : γ → β) (a : α) : β :=
  mem (d.decode a)

/-- Write a pattern to the addresses, one after the other. -/
def fill (addrs : List α) (pattern : β) (mem : γ → β) : γ → β :=
  addrs.foldl (fun mem a => d.write mem a pattern) mem

/-- What is read back is what the cell keeps. -/
theorem read_write (mem : γ → β) (a : α) (b : β) :
    d.read (d.write mem a b) a = d.keep (d.decode a) b :=
  Function.update_self ..

/-- **What a cell holds after the writes.** -/
theorem fill_apply (addrs : List α) (pattern : β) (mem : γ → β) (c : γ) :
    d.fill addrs pattern mem c =
      if c ∈ addrs.map d.decode then d.keep c pattern else mem c := by
  induction addrs generalizing mem with
  | nil => rfl
  | cons a addrs ih =>
      rw [fill, List.foldl_cons, ← fill, ih, List.map_cons]
      by_cases hc : c = d.decode a
      · subst hc
        simp [write]
      · simp [write, hc]

/-- **What the test finds out**: whether each cell selected keeps the pattern. -/
theorem forall_read_fill_iff {addrs : List α} {pattern : β} (mem : γ → β) :
    (∀ a ∈ addrs, d.read (d.fill addrs pattern mem) a = pattern) ↔
      ∀ a ∈ addrs, d.keep (d.decode a) pattern = pattern := by
  refine forall₂_congr fun a ha => ?_
  rw [read, fill_apply, if_pos (List.mem_map_of_mem ha)]

end Defects

end PatternTest
