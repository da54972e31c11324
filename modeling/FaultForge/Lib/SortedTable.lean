import Mathlib.Algebra.BigOperators.Group.Finset.Basic
import Mathlib.Algebra.GroupWithZero.Nat
import Mathlib.Algebra.Order.Group.Multiset

/-!
# Sorted Tables and Grouping

A table is a list of keys with values whose keys strictly increase. `entry` updates the
value at a key, or inserts the key at its place with a new value, as the entry API of an
ordered map does.

`group` runs over a list of items and folds each item into the value at its key. Its
result is what the name says: a key for every group of items, with the fold of the items
of that group (`mem_group_iff`), in the order of the keys (`sorted_group`).

`sum_map_count` sums up the sizes of the groups.
-/

namespace SortedTable

variable {κ ν α : Type*} [LT κ] [DecidableLT κ] [DecidableEq κ]

/-- Update the value at a key, or insert the key with a new value. -/
def entry (k : κ) (new : ν) (upd : ν → ν) : List (κ × ν) → List (κ × ν)
  | [] => [(k, new)]
  | e :: es =>
      if k < e.1 then (k, new) :: e :: es
      else if k = e.1 then (k, upd e.2) :: es
      else e :: entry k new upd es

/-- The keys strictly increase. -/
def Sorted (t : List (κ × ν)) : Prop :=
  t.Pairwise fun a b => a.1 < b.1

/-- Fold every item into the value at its key, starting a new key from `z`. -/
def group (key : α → κ) (upd : α → ν → ν) (z : ν) (xs : List α) : List (κ × ν) :=
  xs.foldl (fun t x => entry (key x) (upd x z) (upd x) t) []

variable {k j : κ} {new v w : ν} {upd : ν → ν} {t : List (κ × ν)}

/-- An entry adds its key, if it is new. -/
theorem mem_keys_entry : j ∈ (entry k new upd t).map Prod.fst ↔ j = k ∨ j ∈ t.map Prod.fst := by
  induction t with
  | nil => simp [entry]
  | cons e es ih =>
      rw [entry]
      split
      · simp
      · split
        · next hk => simp [hk]
        · rw [List.map_cons, List.mem_cons, ih, List.map_cons, List.mem_cons]
          tauto

/-- At the other keys `entry` changes nothing. -/
theorem mem_entry_of_ne (hj : j ≠ k) : (j, w) ∈ entry k new upd t ↔ (j, w) ∈ t := by
  have hhead : ∀ v, (j, w) ≠ (k, v) := fun v hv => hj (congrArg Prod.fst hv)
  induction t with
  | nil => simp [entry, hhead]
  | cons e es ih =>
      rw [entry]
      split
      · simp [hhead]
      · split
        · next hk =>
          have he : (j, w) ≠ e := fun hv => hj ((congrArg Prod.fst hv).trans hk.symm)
          simp [hhead, he]
        · rw [List.mem_cons, List.mem_cons]
          exact or_congr_right ih

/-! ### Grouping -/

variable {key : α → κ} {fold : α → ν → ν} {z : ν} {xs : List α}

/-- A further item changes the entry of its key. -/
theorem group_append_singleton (x : α) :
    group key fold z (xs ++ [x]) =
      entry (key x) (fold x z) (fold x) (group key fold z xs) := by
  simp [group]

/-- Every item has its group, and every group an item. -/
theorem mem_keys_group : k ∈ (group key fold z xs).map Prod.fst ↔ ∃ x ∈ xs, key x = k := by
  induction xs using List.reverseRecOn with
  | nil => simp [group]
  | append_singleton xs x ih =>
      rw [group_append_singleton, mem_keys_entry, ih]
      simp [or_and_right, exists_or, eq_comm, or_comm]

/-! ### The order of the keys -/

section Order

variable [LE κ] [Std.IsLinearOrder κ] [Std.LawfulOrderLT κ]

/-- `entry` keeps the keys in order. -/
theorem Sorted.entry (h : Sorted t) : Sorted (entry k new upd t) := by
  induction t with
  | nil => exact List.pairwise_singleton _ _
  | cons e es ih =>
      obtain ⟨he, hes⟩ := List.pairwise_cons.mp h
      rw [SortedTable.entry]
      split
      · next hk =>
        refine List.Pairwise.cons (fun a ha => ?_) h
        rcases List.mem_cons.mp ha with rfl | ha
        · exact hk
        · exact Std.lt_trans hk (he a ha)
      · next hk =>
        split
        · next heq => exact List.Pairwise.cons (fun a ha => heq ▸ he a ha) hes
        · next hne =>
          refine List.Pairwise.cons (fun a ha => ?_) (ih hes)
          have hmem := mem_keys_entry.mp (List.mem_map_of_mem (f := Prod.fst) ha)
          rcases hmem with hak | hmem
          · rw [hak]
            exact Std.lt_of_le_of_ne (Std.not_lt.mp hk) (Ne.symm hne)
          · obtain ⟨b, hb, hba⟩ := List.mem_map.mp hmem
            exact hba ▸ he b hb

omit [DecidableLT κ] [DecidableEq κ] in
/-- Keys before the first one are not in the table. -/
theorem Sorted.notMem_keys_of_lt {e : κ × ν} {es : List (κ × ν)} (h : Sorted (e :: es))
    (hk : k < e.1) : k ∉ (e :: es).map Prod.fst := by
  intro hmem
  obtain ⟨a, ha, rfl⟩ := List.mem_map.mp hmem
  rcases List.mem_cons.mp ha with rfl | ha
  · exact Std.lt_irrefl hk
  · exact Std.lt_irrefl (Std.lt_trans hk ((List.pairwise_cons.mp h).1 a ha))

omit [DecidableLT κ] [DecidableEq κ] [Std.IsLinearOrder κ] in
/-- The first key is not in the table again. -/
theorem Sorted.head_notMem {e : κ × ν} {es : List (κ × ν)} (h : Sorted (e :: es)) :
    e.1 ∉ es.map Prod.fst := by
  intro hmem
  obtain ⟨a, ha, heq⟩ := List.mem_map.mp hmem
  exact Std.lt_irrefl (heq ▸ (List.pairwise_cons.mp h).1 a ha)

/-- What a table holds at the key after `entry`: the updated value, or the new one if the key
is new. -/
theorem Sorted.mem_entry_self (h : Sorted t) :
    (k, w) ∈ SortedTable.entry k new upd t ↔
      (∃ v, (k, v) ∈ t ∧ w = upd v) ∨ (k ∉ t.map Prod.fst ∧ w = new) := by
  induction t with
  | nil => simp [SortedTable.entry]
  | cons e es ih =>
      rw [SortedTable.entry]
      split
      · next hk =>
        have hkey := h.notMem_keys_of_lt hk
        have hnew : ∀ v, (k, v) ∉ e :: es := fun v hv => hkey (List.mem_map.mpr ⟨_, hv, rfl⟩)
        have hnone : ¬ ∃ v, (k, v) ∈ e :: es ∧ w = upd v := fun ⟨v, hv, _⟩ => hnew v hv
        rw [List.mem_cons, or_iff_left (hnew w), or_iff_right hnone, and_iff_right hkey]
        simp
      · split
        · next hk =>
          subst hk
          have hrest : ∀ v, (e.1, v) ∉ es :=
            fun v hv => h.head_notMem (List.mem_map.mpr ⟨_, hv, rfl⟩)
          simp [hrest, Prod.ext_iff]
        · next hne =>
          have hhead : ∀ v, (k, v) ≠ e := fun v hv => hne (congrArg Prod.fst hv)
          rw [List.mem_cons, ih (List.pairwise_cons.mp h).2, or_iff_right (hhead w)]
          simp only [List.mem_cons, hhead, false_or, List.map_cons, hne]

/-! ### What the groups hold -/

/-- The keys of the groups are in order. -/
theorem sorted_group : Sorted (group key fold z xs) := by
  induction xs using List.reverseRecOn with
  | nil => exact List.Pairwise.nil
  | append_singleton xs x ih =>
      rw [group_append_singleton]
      exact ih.entry

/-- **A group holds the fold of its items.** -/
theorem mem_group_iff :
    (k, v) ∈ group key fold z xs ↔
      (∃ x ∈ xs, key x = k) ∧
        v = (xs.filter fun x => key x = k).foldl (fun v x => fold x v) z := by
  induction xs using List.reverseRecOn generalizing k v with
  | nil => simp [group]
  | append_singleton xs x ih =>
      rw [group_append_singleton, List.filter_append, List.foldl_append]
      by_cases hk : k = key x
      · subst hk
        rw [sorted_group.mem_entry_self, mem_keys_group]
        simp only [ih]
        by_cases hold : ∃ y ∈ xs, key y = key x
        · simp [hold]
        · have hnil : (xs.filter fun y => key y = key x) = [] := by
            simpa [List.filter_eq_nil_iff] using hold
          simp [hold, hnil]
      · have hkey : key x ≠ k := Ne.symm hk
        rw [mem_entry_of_ne hk]
        simp [hkey, ih]

end Order

/-! ### Sizes of the groups -/

/-- The sizes of the groups sum up to the number of items, when no item is left out. -/
theorem sum_map_count {β : Type*} [DecidableEq β] {keys l : List β} (hnodup : keys.Nodup)
    (hall : ∀ a ∈ l, a ∈ keys) :
    (keys.map fun k => l.count k).sum = l.length := by
  rw [← List.sum_toFinset _ hnodup, ← Multiset.coe_card,
    ← Multiset.sum_count_eq_card (s := keys.toFinset) (m := (l : Multiset β)) (by simpa using hall)]
  simp

end SortedTable
