import Mathlib.Data.List.Basic

/-!
# Partial Stream Transducers and Segmenters

A **partial transducer** consumes a stream one item at a time; a step may fail (`none`)
and otherwise yields the next state and at most one outcome. `run` collects the outcomes
item by item, `trace` pairs each outcome with the items its step took out of the state's
pending buffer.

A **segmenter** is the simplest transducer that cuts its input into consecutive runs: it
appends each item to the pending list and asks a single function `settle` whether that
list is complete. The pending list is dropped as a whole with the outcome that `settle`
gives. What a segmenter does is therefore readable from `settle` alone:

* `flatMap_cuts_append` — the cuts and the pending list together are the input;
* `settle_of_mem_cuts` — every cut is settled by its own outcome, and the list that was
  pending before its last item satisfies every invariant of pending lists;
* `feeds_eq_pending` — a stretch of input no prefix of which is settled stays pending.

`Simulates` says that a partial transducer behaves as a segmenter on the states that
satisfy an invariant; `Simulates.run` and `Simulates.trace` carry the segmenter's runs
over to the transducer, failure-freeness included.
-/

namespace Transducer

variable {σ α ω : Type*}

/-! ### Partial transducers -/

/-- Feed a stream to a partial transducer and collect the outcome of every item. -/
def run (step : σ → α → Option (σ × Option ω)) : σ → List α → Option (σ × List (Option ω))
  | s, [] => some (s, [])
  | s, a :: as =>
      (step s a).bind fun r => (run step r.1 as).map fun t => (t.1, r.2 :: t.2)

/-- The items that leave the buffer in a step from `s` to `s'` on `a`: `a` joins the
buffer, and what is no longer pending afterwards was taken from the front. -/
def consumed (pending : σ → List α) (s : σ) (a : α) (s' : σ) : List α :=
  (pending s ++ [a]).take ((pending s).length + 1 - (pending s').length)

/-- Feed a stream to a partial transducer and list its outcomes, each with the items
that its step consumed. -/
def trace (step : σ → α → Option (σ × Option ω)) (pending : σ → List α) :
    σ → List α → Option (σ × List (List α × ω))
  | s, [] => some (s, [])
  | s, a :: as =>
      (step s a).bind fun r => (trace step pending r.1 as).map fun t =>
        (t.1, (r.2.map fun w => (consumed pending s a r.1, w)).toList ++ t.2)

/-- A run from its first step on. -/
theorem run_cons {step : σ → α → Option (σ × Option ω)} {s s₁ s₂ : σ} {a : α} {as : List α}
    {o : Option ω} {os : List (Option ω)} (h : step s a = some (s₁, o))
    (hs : run step s₁ as = some (s₂, os)) :
    run step s (a :: as) = some (s₂, o :: os) := by
  simp only [run, h, hs, Option.bind_some, Option.map_some]

/-- A run over two streams in a row. -/
theorem run_append (step : σ → α → Option (σ × Option ω)) (s : σ) (as bs : List α) :
    run step s (as ++ bs) =
      (run step s as).bind fun r => (run step r.1 bs).map fun t => (t.1, r.2 ++ t.2) := by
  induction as generalizing s with
  | nil => simp [run]
  | cons a as ih =>
      simp only [List.cons_append, run, ih, Option.map_bind, Option.bind_assoc]
      refine congrArg _ (funext fun r => ?_)
      cases run step r.1 as with
      | none => rfl
      | some t => simp [Function.comp_def]

/-- A run up to its last step. -/
theorem run_concat {step : σ → α → Option (σ × Option ω)} {s s₁ s₂ : σ} {as : List α} {a : α}
    {os : List (Option ω)} {o : Option ω} (hs : run step s as = some (s₁, os))
    (h : step s₁ a = some (s₂, o)) :
    run step s (as ++ [a]) = some (s₂, os ++ [o]) := by
  rw [run_append, hs, Option.bind_some, run_cons h rfl, Option.map_some]

/-- The trace of a run from its first step on. -/
theorem trace_cons {step : σ → α → Option (σ × Option ω)} {pending : σ → List α}
    {s s₁ s₂ : σ} {a : α} {as : List α} {o : Option ω} {rs : List (List α × ω)}
    (h : step s a = some (s₁, o)) (hs : trace step pending s₁ as = some (s₂, rs)) :
    trace step pending s (a :: as) =
      some (s₂, (o.map fun w => (consumed pending s a s₁, w)).toList ++ rs) := by
  simp only [trace, h, hs, Option.bind_some, Option.map_some]

/-! ### Segmenters -/

section Segmenter

variable (settle : List α → Option ω)

/-- One step of the segmenter: the item joins the pending list, which is dropped as soon
as it is settled. -/
def feed (q : List α) (a : α) : List α × Option ω :=
  match settle (q ++ [a]) with
  | none => (q ++ [a], none)
  | some w => ([], some w)

/-- The segmenter over a stream: the pending list at the end, and the outcome of every
item. -/
def feeds : List α → List α → List α × List (Option ω)
  | q, [] => (q, [])
  | q, a :: as =>
      ((feeds (feed settle q a).1 as).1, (feed settle q a).2 :: (feeds (feed settle q a).1 as).2)

/-- The runs a stream is cut into, each with the outcome it was settled by. -/
def cuts : List α → List α → List (List α × ω)
  | _, [] => []
  | q, a :: as =>
      ((feed settle q a).2.map fun w => (q ++ [a], w)).toList ++ cuts (feed settle q a).1 as

variable {settle}

/-- An input that settles nothing is kept. -/
theorem feed_none {q : List α} {a : α} (h : settle (q ++ [a]) = none) :
    feed settle q a = (q ++ [a], none) := by
  simp only [feed, h]

/-- An input that settles something empties the queue. -/
theorem feed_some {q : List α} {a : α} {w : ω} (h : settle (q ++ [a]) = some w) :
    feed settle q a = ([], some w) := by
  simp only [feed, h]

/-- A step with an outcome settles the extended pending list and empties it. -/
theorem feed_snd_eq_some_iff {q : List α} {a : α} {w : ω} :
    (feed settle q a).2 = some w ↔ settle (q ++ [a]) = some w := by
  cases h : settle (q ++ [a]) with
  | none => simp [feed_none h]
  | some v => simp [feed_some h]

/-- An outcome is given exactly when the pending list is empty afterwards. -/
theorem feed_isSome_iff {q : List α} {a : α} :
    (feed settle q a).2.isSome = true ↔ (feed settle q a).1 = [] := by
  cases h : settle (q ++ [a]) with
  | none => simp [feed_none h]
  | some v => simp [feed_some h]

/-- Inputs in two parts. -/
theorem feeds_append (q as bs : List α) :
    feeds settle q (as ++ bs) =
      ((feeds settle (feeds settle q as).1 bs).1,
        (feeds settle q as).2 ++ (feeds settle (feeds settle q as).1 bs).2) := by
  induction as generalizing q with
  | nil => rfl
  | cons a as ih => simp only [List.cons_append, feeds, ih]

/-- **Conservation.** The cuts, in order, followed by the pending list are the items that
were pending at first followed by the stream. -/
theorem flatMap_cuts_append (q as : List α) :
    (cuts settle q as).flatMap Prod.fst ++ (feeds settle q as).1 = q ++ as := by
  induction as generalizing q with
  | nil => simp [cuts, feeds]
  | cons a as ih =>
      cases h : settle (q ++ [a]) with
      | none => simpa [cuts, feeds, feed_none h] using ih (q ++ [a])
      | some w => simpa [cuts, feeds, feed_some h] using ih []

/-- What a stretch of input leaves pending satisfies every invariant of pending lists. -/
theorem feeds_invariant {P : List α → Prop} (hnil : P [])
    (hstep : ∀ q a, P q → settle (q ++ [a]) = none → P (q ++ [a])) {q as : List α} (hq : P q) :
    P (feeds settle q as).1 := by
  induction as generalizing q with
  | nil => exact hq
  | cons a as ih =>
      cases h : settle (q ++ [a]) with
      | none =>
          rw [feeds, feed_none h]
          exact ih (hstep q a hq h)
      | some w =>
          rw [feeds, feed_some h]
          exact ih hnil

/-- The cuts are the settled extensions: the list pending at an item, with that item. -/
theorem mem_cuts_iff {q as : List α} {c : List α × ω} :
    c ∈ cuts settle q as ↔ ∃ pre a post, as = pre ++ a :: post ∧
      c.1 = (feeds settle q pre).1 ++ [a] ∧ settle c.1 = some c.2 := by
  induction as generalizing q with
  | nil => simp [cuts]
  | cons a as ih =>
      have hhead : c ∈ ((feed settle q a).2.map fun w => (q ++ [a], w)).toList ↔
          c.1 = q ++ [a] ∧ settle c.1 = some c.2 := by
        cases h : settle (q ++ [a]) with
        | none =>
            simp only [feed_none h, Option.map_none, Option.toList_none, List.not_mem_nil,
              false_iff]
            rintro ⟨hc, hs⟩
            rw [hc, h] at hs
            exact absurd hs (by simp)
        | some w =>
            simp only [feed_some h, Option.map_some, Option.toList_some, List.mem_singleton]
            constructor
            · rintro rfl
              exact ⟨rfl, h⟩
            · rintro ⟨hc, hs⟩
              rw [hc, h] at hs
              exact Prod.ext hc (Option.some.inj hs).symm
      rw [cuts, List.mem_append, hhead, ih]
      constructor
      · rintro (hc | ⟨pre, b, post, rfl, hc⟩)
        · exact ⟨[], a, as, rfl, hc⟩
        · exact ⟨a :: pre, b, post, rfl, hc⟩
      · rintro ⟨pre, b, post, has, hc⟩
        cases pre with
        | nil =>
            obtain ⟨rfl, rfl⟩ := List.cons.inj has
            exact Or.inl hc
        | cons x pre =>
            obtain ⟨rfl, rfl⟩ := List.cons.inj has
            exact Or.inr ⟨pre, b, post, rfl, hc⟩

/-- Every cut is settled by its outcome, and it extends by one item a list that could be
pending. -/
theorem settle_of_mem_cuts {P : List α → Prop} (hnil : P [])
    (hstep : ∀ q a, P q → settle (q ++ [a]) = none → P (q ++ [a])) {q as : List α}
    (hq : P q) {c : List α × ω} (hc : c ∈ cuts settle q as) :
    ∃ q' a, P q' ∧ c.1 = q' ++ [a] ∧ settle c.1 = some c.2 := by
  obtain ⟨pre, a, -, -, hrun, hsettle⟩ := mem_cuts_iff.mp hc
  exact ⟨_, a, feeds_invariant hnil hstep hq, hrun, hsettle⟩

/-- A stretch of input that gives no outcome stays pending as a whole. -/
theorem feeds_fst_of_none {q as : List α} (h : ∀ o ∈ (feeds settle q as).2, o = none) :
    (feeds settle q as).1 = q ++ as := by
  induction as generalizing q with
  | nil => simp [feeds]
  | cons a as ih =>
      have ha : settle (q ++ [a]) = none := by
        have hhead := h _ (List.mem_cons_self ..)
        by_contra hs
        obtain ⟨w, hw⟩ := Option.ne_none_iff_exists'.mp hs
        rw [feed_some hw] at hhead
        exact absurd hhead (by simp)
      simp only [feeds, feed_none ha] at h ⊢
      rw [ih fun o ho => h o (List.mem_cons_of_mem _ ho), List.append_assoc]
      rfl

/-- When every list that can be pending is shorter than `n`, any `n` items give an
outcome. -/
theorem exists_outcome {P : List α → Prop} {n : ℕ} (hnil : P [])
    (hstep : ∀ q a, P q → settle (q ++ [a]) = none → P (q ++ [a]))
    (hlt : ∀ q, P q → q.length < n) {q as : List α} (hq : P q) (hn : n ≤ as.length) :
    ∃ o ∈ (feeds settle q as).2, o.isSome = true := by
  by_contra hnone
  have hkeep : (feeds settle q as).1 = q ++ as := by
    refine feeds_fst_of_none fun o ho => ?_
    by_contra ho'
    exact hnone ⟨o, ho, Option.isSome_iff_ne_none.mpr ho'⟩
  have hlen : (feeds settle q as).1.length < n := hlt _ (feeds_invariant hnil hstep hq)
  rw [hkeep, List.length_append] at hlen
  omega

/-- Right behind an outcome nothing is pending. -/
theorem exists_empty_of_outcome {q as : List α} {o : Option ω}
    (ho : o ∈ (feeds settle q as).2) (hsome : o.isSome = true) :
    ∃ pre post, as = pre ++ post ∧ (feeds settle q pre).1 = [] := by
  induction as generalizing q with
  | nil => simp [feeds] at ho
  | cons a as ih =>
      rcases List.mem_cons.mp ho with rfl | ho
      · exact ⟨[a], as, rfl, feed_isSome_iff.mp hsome⟩
      · obtain ⟨pre, post, rfl, hpre⟩ := ih ho
        exact ⟨a :: pre, post, rfl, hpre⟩

/-- A stretch of input that settles at none of its items stays pending as a whole. -/
theorem feeds_eq_pending {q as : List α}
    (h : ∀ bs cs, as = bs ++ cs → bs ≠ [] → settle (q ++ bs) = none) :
    feeds settle q as = (q ++ as, List.replicate as.length none) := by
  induction as generalizing q with
  | nil => simp [feeds]
  | cons a as ih =>
      have ha : settle (q ++ [a]) = none := h [a] as rfl (List.cons_ne_nil a [])
      have htail := ih (q := q ++ [a]) fun bs cs hbs hne => by
        simpa using h (a :: bs) cs (by rw [hbs]; rfl) (List.cons_ne_nil a bs)
      simp [feeds, feed_none ha, htail, List.replicate_succ]

end Segmenter

/-! ### Transducers that behave as segmenters -/

/-- On the states that satisfy `Inv`, `step` never fails, keeps `Inv`, and does to the
pending list what the segmenter of `settle` does. -/
structure Simulates (step : σ → α → Option (σ × Option ω)) (pending : σ → List α)
    (settle : List α → Option ω) (Inv : σ → Prop) : Prop where
  step : ∀ s a, Inv s → ∃ s', step s a = some (s', (feed settle (pending s) a).2) ∧
    pending s' = (feed settle (pending s) a).1 ∧ Inv s'

namespace Simulates

variable {step : σ → α → Option (σ × Option ω)} {pending : σ → List α}
  {settle : List α → Option ω} {Inv : σ → Prop}

/-- A simulated run never fails, and its outcomes are the segmenter's. -/
theorem run (h : Simulates step pending settle Inv) (as : List α) {s : σ} (hs : Inv s) :
    ∃ s', Transducer.run step s as = some (s', (feeds settle (pending s) as).2) ∧
      pending s' = (feeds settle (pending s) as).1 ∧ Inv s' := by
  induction as generalizing s with
  | nil => exact ⟨s, rfl, rfl, hs⟩
  | cons a as ih =>
      obtain ⟨s₁, hstep, hpend, hinv⟩ := h.step s a hs
      obtain ⟨s₂, hrun, hpend₂, hinv₂⟩ := ih hinv
      rw [hpend] at hrun hpend₂
      exact ⟨s₂, run_cons hstep hrun, hpend₂, hinv₂⟩

/-- The items a simulated step with an outcome consumes are the whole run that the
segmenter cuts off. -/
theorem consumed_eq {s s' : σ} {a : α}
    (hpend : pending s' = (feed settle (pending s) a).1)
    (ho : (feed settle (pending s) a).2.isSome = true) :
    consumed pending s a s' = pending s ++ [a] := by
  rw [consumed, hpend, feed_isSome_iff.mp ho, List.length_nil, Nat.sub_zero,
    List.take_of_length_le (by simp)]

/-- A simulated trace never fails, and it lists the segmenter's cuts. -/
theorem trace (h : Simulates step pending settle Inv) (as : List α) {s : σ} (hs : Inv s) :
    ∃ s', Transducer.trace step pending s as = some (s', cuts settle (pending s) as) ∧
      pending s' = (feeds settle (pending s) as).1 ∧ Inv s' := by
  induction as generalizing s with
  | nil => exact ⟨s, rfl, rfl, hs⟩
  | cons a as ih =>
      obtain ⟨s₁, hstep, hpend, hinv⟩ := h.step s a hs
      obtain ⟨s₂, htrace, hpend₂, hinv₂⟩ := ih hinv
      rw [hpend] at htrace hpend₂
      refine ⟨s₂, ?_, hpend₂, hinv₂⟩
      rw [trace_cons hstep htrace, cuts]
      cases ho : (feed settle (pending s) a).2 with
      | none => rfl
      | some w => rw [consumed_eq hpend (by rw [ho]; rfl)]

end Simulates

end Transducer
