import FaultForge.Lib.Decreasing
import FaultForge.Pipeline

/-!
# The Pipeline Drains

The receive pipeline (`FaultForge.Pipeline`) never gets stuck: as long as the consumer has not
left and something is left to do, `parse_stream` or the consumer can do it, although each of
them waits on the other, the one for frames and the other for room (`exists_serves`). And each
step that one of them makes uses up some of the work that is there (`work`), so without new
chunks all of it is done after a bounded number of steps, in whatever order the two are
scheduled.

## Main results

* `Serves.work_lt`: every step of the receiving side uses up work.
* `exists_serves`: the receiving side never blocks.
* `pipeline_drains`: every chunk sent is processed to the end.
-/

namespace FaultForge

open Decreasing

namespace Pipe

/-- A step of the receiving side, `parse_stream` or the consumer: it puts no chunk into the
byte channel. -/
def Serves (s s' : Pipe) : Prop :=
  Step s s' ∧ s'.chunks.length ≤ s.chunks.length

/-- What there is to do: up to three steps for every byte, two for every chunk and one for every
frame. -/
def work (s : Pipe) : ℕ :=
  4 * (s.inProgress.length + s.chunks.flatten.length) + 2 * s.chunks.length +
    (if s.current.isSome then 1 else 0) + (if s.held.isSome then 0 else 1) + s.frames.length

/-- **Every step of the receiving side uses up work.** -/
theorem Serves.work_lt {s s' : Pipe} (h : Serves s s') : s'.work < s.work := by
  obtain ⟨hstep, hchunks⟩ := h
  cases hstep with
  | send chunk _ =>
      simp only [List.length_append, List.length_singleton] at hchunks
      omega
  | recv hidle hqueue =>
      simp only [work, inProgress, hidle, hqueue, Option.getD_none, Option.getD_some,
        List.flatten_cons, List.length_append, List.length_cons, List.length_nil,
        Option.isSome_none, Option.isSome_some, Bool.false_eq_true, if_false, if_true]
      omega
  | push hcurrent hheld _ =>
      simp only [work, inProgress, hcurrent, Option.getD_some, List.length_cons, hheld,
        Option.isSome_none, Option.isSome_some, Bool.false_eq_true, if_false, if_true]
      omega
  | hold hcurrent hheld _ =>
      simp only [work, inProgress, hcurrent, hheld, Option.isSome_none, Option.isSome_some,
        Bool.false_eq_true, if_false, if_true]
      omega
  | deliver hcurrent hheld _ _ =>
      simp only [work, inProgress, hcurrent, Option.getD_some, List.length_cons, hheld,
        Option.isSome_none, Option.isSome_some, List.length_append, List.length_nil,
        Bool.false_eq_true, if_false, if_true]
      omega
  | finish hcurrent =>
      simp only [work, inProgress, hcurrent, Option.getD_some, Option.getD_none,
        List.length_nil, Option.isSome_none, Option.isSome_some, Bool.false_eq_true, if_false,
        if_true]
      omega
  | shake _ hqueue =>
      simp only [work, inProgress, hqueue, List.length_cons]
      omega
  | take _ hqueue =>
      simp only [work, inProgress, hqueue, List.length_cons]
      omega

/-- Everything that was sent is processed, and all frames are received. -/
structure Drained (s : Pipe) : Prop where
  chunks : s.chunks = []
  current : s.current = none
  frames : s.frames = []

/-- **The receiving side never blocks** before the consumer leaves: with a frame queued the
consumer can receive it, and without one there is room for the next. -/
theorem exists_serves {s : Pipe} (h : Reached s) (hphase : s.phase ≠ .done) (hwork : ¬ Drained s) :
    ∃ s', Serves s s' := by
  cases hframes : s.frames with
  | cons f rest =>
      cases hp : s.phase with
      | handshake => exact ⟨_, .shake hp hframes, le_rfl⟩
      | campaign => exact ⟨_, .take hp hframes, le_rfl⟩
      | done => exact absurd hp hphase
  | nil =>
      cases hcurrent : s.current with
      | none =>
          cases hchunks : s.chunks with
          | nil => exact absurd ⟨hchunks, hcurrent, hframes⟩ hwork
          | cons chunk rest => exact ⟨_, .recv hcurrent hchunks, by simp [hchunks]⟩
      | some bytes =>
          cases bytes with
          | nil => exact ⟨_, .finish hcurrent, le_rfl⟩
          | cons b bs =>
              cases hheld : s.held with
              | some f =>
                  have hroom : s.frames.length < frameRoom := by rw [hframes]; decide
                  exact ⟨_, .deliver hcurrent hheld hroom hphase, le_rfl⟩
              | none =>
                  obtain ⟨⟨p, o⟩, hpush⟩ := Option.isSome_iff_exists.mp (h.push_isSome b)
                  cases o with
                  | none => exact ⟨_, .push hcurrent hheld hpush, le_rfl⟩
                  | some o => exact ⟨_, .hold hcurrent hheld hpush, le_rfl⟩

/-- The receiving side sends nothing. -/
theorem Serves.sent_eq {s s' : Pipe} (h : Serves s s') : s'.sent = s.sent := by
  obtain ⟨hstep, hchunks⟩ := h
  cases hstep with
  | send chunk _ =>
      simp only [List.length_append, List.length_singleton] at hchunks
      omega
  | _ => rfl

/-- Nothing is in progress, queued or in hand: the frames received are those of all bytes
sent. -/
theorem Drained.received_eq {s : Pipe} (h : Reached s) (hdrained : Drained s) :
    ∃ p outs, FrameParser.new.run s.sent = some (p, outs) ∧ s.received = images outs := by
  obtain ⟨⟨p, outs, hrun, hframes, -⟩, hsent⟩ := h.lossless
  have hidle : s.inProgress = [] := by rw [inProgress, hdrained.current]; rfl
  rw [hidle, hdrained.chunks, List.flatten_nil, List.append_nil, List.append_nil] at hsent
  rw [hdrained.frames, List.append_nil] at hframes
  exact ⟨p, outs, hsent ▸ hrun, hframes⟩

/-- The receiving side runs down. -/
theorem runsDown_serves (sent : List UInt8) :
    RunsDown Serves (fun s => Reached s ∧ s.sent = sent) work where
  keeps _ _ hs h := ⟨hs.1.tail h.1, h.sent_eq.trans hs.2⟩
  decreases _ _ _ h := h.work_lt

/-- **The pipeline drains.** From every reachable state, without new chunks, `parse_stream` and
the consumer together make no more steps than there is work; and in whatever order they make
them, when neither can make another, the consumer has left or it has received every frame that
the parser makes of the bytes sent. -/
theorem pipeline_drains {s : Pipe} (h : Reached s) :
    (∀ (run : ℕ → Pipe) (n : ℕ), run 0 = s → (∀ i < n, Serves (run i) (run (i + 1))) →
      n ≤ s.work) ∧
    (∃ t, Relation.ReflTransGen Serves s t ∧ Final Serves t) ∧
    ∀ t, Relation.ReflTransGen Serves s t → Final Serves t → t.phase = .done ∨
      ∃ p outs, FrameParser.new.run s.sent = some (p, outs) ∧ t.received = images outs := by
  have hdown := runsDown_serves s.sent
  refine ⟨fun run n hrun hsteps => ?_, hdown.exists_final ⟨h, rfl⟩, fun t hreach hfinal => ?_⟩
  · obtain ⟨-, hlength⟩ := hdown.length_le (by rw [hrun]; exact ⟨h, rfl⟩) hsteps
    rw [hrun] at hlength
    omega
  · have hmove : ∀ a, Reached a ∧ a.sent = s.sent → ¬ (a.phase = .done ∨ Drained a) →
        ∃ b, Serves a b := by
      intro a ha hgoal
      obtain ⟨hphase, hwork⟩ := not_or.mp hgoal
      exact exists_serves ha.1 hphase hwork
    obtain ⟨hend, hsent⟩ := hdown.inv_of_run ⟨h, rfl⟩ hreach
    refine (hdown.goal_of_final hmove ⟨h, rfl⟩ hreach hfinal).imp_right fun hdrained => ?_
    rw [← hsent]
    exact hdrained.received_eq hend

/-- A byte of noise on its way to the handshake drains. -/
theorem noise_drains :
    let s : Pipe := { initial with chunks := [[0x55]], sent := [0x55] }
    (∀ (run : ℕ → Pipe) (n : ℕ), run 0 = s → (∀ i < n, Serves (run i) (run (i + 1))) →
      n ≤ s.work) ∧
    (∃ t, Relation.ReflTransGen Serves s t ∧ Final Serves t) ∧
    ∀ t, Relation.ReflTransGen Serves s t → Final Serves t → t.phase = .done ∨
      ∃ p outs, FrameParser.new.run s.sent = some (p, outs) ∧ t.received = images outs :=
  pipeline_drains (.tail .refl (.send [0x55] (by decide)))

end Pipe

end FaultForge
