import Mathlib.Data.List.Basic

/-!
# Safety of Event Traces

A **reactive system** answers each input with a new state and a list of events. What it may
do is said of its traces: `permits pre e` tells whether event `e` may follow the events
`pre`, and a trace is `Safe` when every event of it is permitted by the events before it.

An invariant for such a property relates the trace so far to the state. `Keeps` says that a
step preserves the invariant and adds permitted events only; it holds of a sequence of steps
(`Keeps.run`) and of one step behind another (`Keeps.andThen`) as soon as it holds of the
single steps, so that a system that is nested loops is verified loop body by loop body.
-/

namespace Monitor

variable {σ α ε : Type*}

/-! ### Safe traces -/

/-- Every event of the trace is permitted by the events before it. -/
def Safe (permits : List ε → ε → Prop) (trace : List ε) : Prop :=
  ∀ pre e post, trace = pre ++ e :: post → permits pre e

variable {permits : List ε → ε → Prop}

/-- The empty trace is safe. -/
@[simp] theorem safe_nil : Safe permits [] := by
  intro pre e post h
  simp at h

/-- A trace in two parts: the second one is judged behind the first. -/
theorem safe_append {as bs : List ε} :
    Safe permits (as ++ bs) ↔ Safe permits as ∧ Safe (fun pre => permits (as ++ pre)) bs := by
  constructor
  · intro h
    refine ⟨fun pre e post has => ?_, fun pre e post hbs => ?_⟩
    · exact h pre e (post ++ bs) (by rw [has, List.append_assoc, List.cons_append])
    · exact h (as ++ pre) e post (by rw [hbs, List.append_assoc])
  · rintro ⟨has, hbs⟩ pre e post h
    rcases List.append_eq_append_iff.mp h with ⟨mid, rfl, hmid⟩ | ⟨mid, rfl, hmid⟩
    · exact hbs mid e post hmid
    · cases mid with
      | nil =>
          rw [List.append_nil] at hbs
          exact (List.append_nil pre) ▸ hbs [] e post hmid.symm
      | cons a mid =>
          obtain ⟨rfl, rfl⟩ := List.cons.inj hmid
          exact has pre e mid rfl

/-- A trace with a first event. -/
@[simp] theorem safe_cons {a : ε} {as : List ε} :
    Safe permits (a :: as) ↔ permits [] a ∧ Safe (fun pre => permits (a :: pre)) as := by
  have hone : Safe permits [a] ↔ permits [] a := by
    refine ⟨fun h => h [] a [] rfl, fun h pre e post hpre => ?_⟩
    cases pre with
    | nil => exact (List.cons.inj hpre).1 ▸ h
    | cons b pre => simp at hpre
  rw [← List.singleton_append, safe_append, hone]
  rfl

/-! ### Reactive systems -/

/-- Answer a list of inputs one by one: the state reached and the trace. -/
def run (step : σ → α → σ × List ε) : σ → List α → σ × List ε
  | s, [] => (s, [])
  | s, a :: as =>
      let rest := run step (step s a).1 as
      (rest.1, (step s a).2 ++ rest.2)

/-- Answering two lists of inputs in a row. -/
theorem run_append (step : σ → α → σ × List ε) (s : σ) (as bs : List α) :
    run step s (as ++ bs) =
      ((run step (run step s as).1 bs).1,
        (run step s as).2 ++ (run step (run step s as).1 bs).2) := by
  induction as generalizing s with
  | nil => rfl
  | cons a as ih => rw [List.cons_append, run, ih, run, List.append_assoc]

/-- Answer one input by two steps in a row. -/
def andThen (step step' : σ → α → σ × List ε) (s : σ) (a : α) : σ × List ε :=
  let first := step s a
  let second := step' first.1 a
  (second.1, first.2 ++ second.2)

/-- What every answer has, and what goes over to lists of events put together, a run has. -/
theorem run_induction {step : σ → α → σ × List ε} {P : List ε → Prop} (hnil : P [])
    (happend : ∀ as bs, P as → P bs → P (as ++ bs)) (hstep : ∀ s a, P (step s a).2) (s : σ)
    (as : List α) : P (run step s as).2 := by
  induction as generalizing s with
  | nil => exact hnil
  | cons a as ih => exact happend _ _ (hstep s a) (ih _)

/-- **A step keeps an invariant** between trace and state, and adds permitted events only. -/
structure Keeps (step : σ → α → σ × List ε) (inv : List ε → σ → Prop)
    (permits : List ε → ε → Prop) : Prop where
  preserves : ∀ trace s a, inv trace s → inv (trace ++ (step s a).2) (step s a).1
  safe : ∀ trace s a, inv trace s → Safe (fun pre => permits (trace ++ pre)) (step s a).2

variable {step step' : σ → α → σ × List ε} {inv : List ε → σ → Prop}

/-- **A run keeps what its steps keep.** -/
theorem Keeps.run (h : Keeps step inv permits) : Keeps (Monitor.run step) inv permits := by
  have hrun : ∀ (as : List α) trace s, inv trace s →
      inv (trace ++ (Monitor.run step s as).2) (Monitor.run step s as).1 ∧
        Safe (fun pre => permits (trace ++ pre)) (Monitor.run step s as).2 := by
    intro as
    induction as with
    | nil => exact fun trace s hinv => ⟨by simpa [Monitor.run] using hinv, safe_nil⟩
    | cons a as ih =>
        intro trace s hinv
        obtain ⟨hrest, hsafe⟩ := ih _ _ (h.preserves trace s a hinv)
        simp only [List.append_assoc] at hrest hsafe
        exact ⟨hrest, safe_append.mpr ⟨h.safe trace s a hinv, hsafe⟩⟩
  exact ⟨fun trace s as hinv => (hrun as trace s hinv).1,
    fun trace s as hinv => (hrun as trace s hinv).2⟩

/-- Two steps, one after the other, keep what both keep. -/
theorem Keeps.andThen (h : Keeps step inv permits) (h' : Keeps step' inv permits) :
    Keeps (Monitor.andThen step step') inv permits := by
  refine ⟨fun trace s a hinv => ?_, fun trace s a hinv => ?_⟩
  · rw [Monitor.andThen, ← List.append_assoc]
    exact h'.preserves _ _ a (h.preserves trace s a hinv)
  · have hsafe := h'.safe _ _ a (h.preserves trace s a hinv)
    simp only [List.append_assoc] at hsafe
    exact safe_append.mpr ⟨h.safe trace s a hinv, hsafe⟩

/-- **The traces of a system are safe** if its steps keep an invariant that holds at first. -/
theorem Keeps.safe_run (h : Keeps step inv permits) {s : σ} (hinit : inv [] s) (as : List α) :
    Safe permits (Monitor.run step s as).2 :=
  h.run.safe [] s as hinit

end Monitor
