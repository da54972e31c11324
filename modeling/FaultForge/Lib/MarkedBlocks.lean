import FaultForge.Lib.Transducer

/-!
# Segmenters on Streams of Marked Blocks

A stream of blocks each of which begins with a marker that does not occur in it again
(`Marked`). A segmenter (`FaultForge.Lib.Transducer`) that joins such a stream in whatever state
may swallow some blocks with what it has pending. But when an empty segmenter settles every item
but the marker by itself, it goes through the rest of the block in which it gets empty item by
item, and is empty where the next block starts. From there on it does what a new segmenter does.

## Main results

* `exists_cut_in_block`: where a cut of the stream falls.
* `resumes_on_blocks`: the segmenter resumes after no more items than it can hold.
-/

namespace Transducer

variable {α ω : Type*} {settle : List α → Option ω} {marker : α}

/-- The block begins with the marker, which does not occur in it again. -/
def Marked (marker : α) (block : List α) : Prop :=
  ∃ body, block = marker :: body ∧ marker ∉ body

variable {blocks : List (List α)}

/-- **A cut of the stream falls into one block**, of which items other than the marker remain. -/
theorem exists_cut_in_block (hblocks : ∀ b ∈ blocks, Marked marker b) {pre post : List α}
    (hcut : blocks.flatten = pre ++ post) :
    ∃ k ≤ blocks.length, ∃ rest, post = rest ++ (blocks.drop k).flatten ∧ marker ∉ rest ∧
      (k = 0 ∨ (blocks.take (k - 1)).flatten.length < pre.length) := by
  induction blocks generalizing pre with
  | nil =>
      obtain ⟨-, rfl⟩ := List.append_eq_nil_iff.mp hcut.symm
      exact ⟨0, Nat.le_refl _, [], rfl, List.not_mem_nil, .inl rfl⟩
  | cons b blocks ih =>
      obtain ⟨hb, hbehind⟩ := List.forall_mem_cons.mp hblocks
      obtain ⟨body, rfl, hbody⟩ := hb
      rw [List.flatten_cons] at hcut
      rcases List.append_eq_append_iff.mp hcut with ⟨pre', rfl, hpre⟩ | ⟨rest, hpre, rfl⟩
      · -- the cut is behind this block
        obtain ⟨k, hle, rest, hpost, hrest, hk⟩ := ih hbehind hpre
        refine ⟨k + 1, Nat.succ_le_succ hle, rest, hpost, hrest, .inr ?_⟩
        rw [List.length_append, List.length_cons, Nat.add_sub_cancel]
        cases k with
        | zero =>
            rw [List.take_zero, List.flatten_nil, List.length_nil]
            omega
        | succ k =>
            have hk : (blocks.take k).flatten.length < pre'.length :=
              hk.resolve_left (Nat.succ_ne_zero k)
            rw [List.take_succ_cons, List.flatten_cons, List.length_append, List.length_cons]
            omega
      · cases pre with
        | nil =>
            rw [List.nil_append] at hpre
            exact ⟨0, Nat.zero_le _, [], by rw [← hpre]; rfl, List.not_mem_nil, .inl rfl⟩
        | cons x pre =>
            obtain ⟨-, rfl⟩ := List.cons.inj hpre
            exact ⟨1, Nat.succ_le_succ (Nat.zero_le _), rest, rfl,
              fun h => hbody (List.mem_append_right _ h), .inr (Nat.succ_pos _)⟩

/-- An empty segmenter goes through items other than the marker one by one. -/
theorem feeds_nil_of_notMem (hskip : ∀ a, a ≠ marker → (settle [a]).isSome = true) {as : List α}
    (has : marker ∉ as) : (feeds settle [] as).1 = [] := by
  induction as with
  | nil => rfl
  | cons a as ih =>
      obtain ⟨ha, has⟩ := not_or.mp (mt List.mem_cons.mpr has)
      obtain ⟨w, hw⟩ := Option.isSome_iff_exists.mp (hskip a (Ne.symm ha))
      rw [feeds, feed_some (show settle ([] ++ [a]) = some w from hw)]
      exact ih has

/-- **The segmenter resumes on the blocks.** Whatever is pending, it gives the outcomes of a new
segmenter from some block on, and all blocks before the last one that it swallows are shorter in
total than what it can hold. -/
theorem resumes_on_blocks {P : List α → Prop} {n : ℕ} (hnil : P [])
    (hstep : ∀ q a, P q → settle (q ++ [a]) = none → P (q ++ [a]))
    (hlt : ∀ q, P q → q.length < n)
    (hskip : ∀ a, a ≠ marker → (settle [a]).isSome = true)
    (hblocks : ∀ b ∈ blocks, Marked marker b) {q : List α} (hq : P q) :
    ∃ k ≤ blocks.length, ∃ early, (blocks.take (k - 1)).flatten.length < n ∧
      (feeds settle q blocks.flatten).2 =
        early ++ (feeds settle [] (blocks.drop k).flatten).2 := by
  rcases Nat.lt_or_ge blocks.flatten.length n with hshort | hlong
  · refine ⟨blocks.length, Nat.le_refl _, (feeds settle q blocks.flatten).2, ?_, ?_⟩
    · have hparts := congrArg (List.length ∘ List.flatten)
        (List.take_append_drop (blocks.length - 1) blocks)
      simp only [Function.comp_apply, List.flatten_append, List.length_append] at hparts
      omega
    · rw [List.drop_length]
      exact (List.append_nil _).symm
  · -- within the first `n` items the segmenter gets empty
    have hfull : n ≤ (blocks.flatten.take n).length := by
      rw [List.length_take]
      omega
    obtain ⟨o, ho, hsome⟩ := exists_outcome hnil hstep hlt hq hfull
    obtain ⟨pre, post, hsplit, hempty⟩ := exists_empty_of_outcome ho hsome
    have hcut : blocks.flatten = pre ++ (post ++ blocks.flatten.drop n) := by
      rw [← List.append_assoc, ← hsplit, List.take_append_drop]
    obtain ⟨k, hle, rest, hpost, hrest, hk⟩ := exists_cut_in_block hblocks hcut
    have hlen : pre.length ≤ n := by
      have htotal := congrArg List.length hsplit
      rw [List.length_take, List.length_append] at htotal
      omega
    refine ⟨k, hle, (feeds settle q pre).2 ++ (feeds settle [] rest).2, ?_, ?_⟩
    · rcases hk with rfl | hk
      · exact Nat.zero_lt_of_lt (hlt _ hq)
      · exact Nat.lt_of_lt_of_le hk hlen
    · rw [hcut, hpost, feeds_append, hempty, feeds_append, feeds_nil_of_notMem hskip hrest,
        List.append_assoc]

end Transducer
