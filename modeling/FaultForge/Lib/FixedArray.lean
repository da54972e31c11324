import Mathlib.Data.Vector.Basic

/-!
# Fixed-Size Arrays with Checked Ranges

A fixed-size array is a `List.Vector`: a list whose length is part of its type. The
operations of this module are those a systems language offers on such an array, with
the language's run-time range checks made explicit: an operation is `none` exactly
when its index or range check would fail.

* `slice xs i j` — the elements at positions `i, …, j - 1`;
* `store v i a` — overwrite position `i`;
* `writeFront v xs` — overwrite the first positions by `xs`;
* `copyWithin v i j` — move the elements at positions `i, …, j - 1` to the front.

A buffer with a fill level `k` is an array of which only the first `k` elements, its
**window** `v.toList.take k`, are meaningful. The lemmas of the last section say what
each operation does to the window, so that a client never looks at the stale elements
behind it.
-/

namespace FixedArray

variable {α : Type*} {n : ℕ}

/-- The elements of `xs` at positions `i, …, j - 1`, when that range lies in `xs`. -/
def slice (xs : List α) (i j : ℕ) : Option (List α) :=
  if i ≤ j ∧ j ≤ xs.length then some ((xs.take j).drop i) else none

/-- Overwrite position `i`. -/
def store (v : List.Vector α n) (i : ℕ) (a : α) : Option (List.Vector α n) :=
  if i < n then some ⟨v.toList.set i a, by simp⟩ else none

/-- Overwrite the first `xs.length` positions by `xs`. -/
def writeFront (v : List.Vector α n) (xs : List α) : Option (List.Vector α n) :=
  if h : xs.length ≤ n then
    some ⟨xs ++ v.toList.drop xs.length, by simp; omega⟩
  else none

/-- Move the elements at positions `i, …, j - 1` to the front of the array. -/
def copyWithin (v : List.Vector α n) (i j : ℕ) : Option (List.Vector α n) :=
  if h : i ≤ j ∧ j ≤ n then
    some ⟨(v.toList.take j).drop i ++ v.toList.drop (j - i), by simp; omega⟩
  else none

/-- The array that starts with `xs` and is filled up with `a`. -/
def padded (n : ℕ) (a : α) (xs : List α) (h : xs.length ≤ n) : List.Vector α n :=
  ⟨xs ++ List.replicate (n - xs.length) a, by simp; omega⟩

/-- The entries, and the fill behind them. -/
@[simp] theorem toList_padded (a : α) (xs : List α) (h : xs.length ≤ n) :
    (padded n a xs h).toList = xs ++ List.replicate (n - xs.length) a := rfl

/-- The window of a padded array is the list it was built from. -/
theorem take_padded (a : α) (xs : List α) (h : xs.length ≤ n) :
    (padded n a xs h).toList.take xs.length = xs := by
  simp

/-! ### The window of a buffer -/

/-- A slice within bounds does not panic. -/
theorem slice_eq_some {xs : List α} {i j : ℕ} (hij : i ≤ j) (hj : j ≤ xs.length) :
    slice xs i j = some ((xs.take j).drop i) :=
  if_pos ⟨hij, hj⟩

/-- A slice that ends inside the window reads the window only. -/
theorem slice_window {xs : List α} {i j k : ℕ} (hij : i ≤ j) (hjk : j ≤ k)
    (hj : j ≤ xs.length) : slice xs i j = some (((xs.take k).take j).drop i) := by
  rw [slice_eq_some hij hj, List.take_take, min_eq_left hjk]

/-- Reading below the fill level reads the window. -/
theorem getElem?_window {xs : List α} {i k : ℕ} (hik : i < k) :
    xs[i]? = (xs.take k)[i]? := by
  rw [List.getElem?_take, if_pos hik]

/-- Storing at the fill level appends to the window. -/
theorem store_window {v : List.Vector α n} {k : ℕ} (a : α) (hk : k < n) :
    ∃ w, store v k a = some w ∧ w.toList.take (k + 1) = v.toList.take k ++ [a] := by
  refine ⟨_, if_pos hk, ?_⟩
  have hlen : k < v.toList.length := by simpa using hk
  show (v.toList.set k a).take (k + 1) = _
  rw [List.take_add_one, List.getElem?_set_self hlen, List.take_set_of_le (le_refl k)]
  rfl

/-- Moving the tail of the window to the front leaves that tail as the window. -/
theorem copyWithin_window {v : List.Vector α n} {i k : ℕ} (hik : i ≤ k) (hk : k ≤ n) :
    ∃ w, copyWithin v i k = some w ∧
      w.toList.take (k - i) = (v.toList.take k).drop i := by
  refine ⟨_, dif_pos ⟨hik, hk⟩, ?_⟩
  have hlen : ((v.toList.take k).drop i).length = k - i := by simp; omega
  show ((v.toList.take k).drop i ++ v.toList.drop (k - i)).take (k - i) = _
  rw [List.take_append_of_le_length (by omega), List.take_of_length_le (by omega)]

/-- Overwriting the front of an array of `a`s is padding by `a`. -/
theorem writeFront_replicate (a : α) (xs : List α) (h : xs.length ≤ n) :
    writeFront (List.Vector.replicate n a) xs = some (padded n a xs h) := by
  rw [writeFront, dif_pos h]
  congr 1
  apply List.Vector.eq
  show xs ++ (List.replicate n a).drop xs.length = xs ++ List.replicate (n - xs.length) a
  rw [List.drop_replicate]

end FixedArray
