import FaultForge.Drain
import FaultForge.Hearing

/-!
# The Handshake on the Simulated Link

`--simulate` from its start: the host sends a PING and waits for the PONG, and sends the START of
its campaign once the link is confirmed. The state `Rig` puts everything together that runs
meanwhile, on bytes: the host, the thread of `open_sim` with its own parser, and the receive
pipeline (`FaultForge.Pipeline`), with the bounded channels between them. A round of the thread
is handled as in `FaultForge.Bench`, except that here its frames come out of the bytes.

The thread does not hear the PING (`FaultForge.Hearing`), so it never sends a byte. The whole
program makes four steps at most, PING, wake, block and timeout, and ends with the handshake
failed, whatever campaign was asked for (`never_confirmed`).

## Main results

* `Deaf.step`: no step of any party makes the injector answer.
* `never_confirmed`: the simulated link is never confirmed.
-/

namespace FaultForge

open Decreasing

/-- Where the host stands. -/
inductive Caller where
  /-- About to send PING. -/
  | calling
  /-- Waiting for PONG. -/
  | waiting
  /-- In the campaign, with START sent. -/
  | started
  /-- Past the timeout of the handshake. -/
  | failed
deriving DecidableEq

/-- The state of the program. -/
structure Rig where
  caller : Caller
  /-- The chunks on their way to the injector. -/
  outbound : List (List UInt8)
  /-- The injector's parser. -/
  parser : FrameParser
  cfg : Option SharedCfg
  /-- What the injector thread has left to do of a round; it waits for a chunk if there is none. -/
  todo : Option (List Action)
  /-- The link back to the host, and what runs behind it. -/
  pipe : Pipe

namespace Rig

/-- The program when both ends of the link are open. -/
def initial : Rig where
  caller := .calling
  outbound := []
  parser := .new
  cfg := none
  todo := none
  pipe := .initial

/-- Whether the host takes frames from the channel. -/
def Listens (s : Rig) : Prop :=
  (s.caller = .waiting ∧ s.pipe.phase = .handshake) ∨
    (s.caller = .started ∧ s.pipe.phase = .campaign)

/-- One step of one party, for a campaign with the given configuration. -/
inductive Step (cfg : CampaignConfig) : Rig → Rig → Prop
  /-- The host sends PING. -/
  | ping {s : Rig} : s.caller = .calling → s.outbound.length < outboundRoom →
      Step cfg s { s with caller := .waiting, outbound := s.outbound ++ [encodePing.toVec] }
  /-- The handshake times out. -/
  | timeout {s : Rig} : s.caller = .waiting → s.pipe.phase = .handshake →
      Step cfg s { s with caller := .failed }
  /-- The link is confirmed, and the host sends START. -/
  | start {s : Rig} : s.caller = .waiting → s.pipe.phase = .campaign →
      s.outbound.length < outboundRoom →
      Step cfg s { s with caller := .started, outbound := s.outbound ++ [(encodeStart cfg).toVec] }
  /-- The injector thread receives a chunk, handles the frames in it and advances its campaign. -/
  | wake {s : Rig} {chunk : List UInt8} {rest : List (List UInt8)} {p : FrameParser}
      {c : Option SharedCfg} {acts : List Action} : s.todo = none → s.outbound = chunk :: rest →
      simBytes s.parser s.cfg chunk = some (p, c, acts) →
      Step cfg s
        { s with
          outbound := rest
          parser := p
          cfg := (advance c).1
          todo := some (acts ++ (advance c).2) }
  /-- The injector thread sends the bytes of a message. -/
  | emit {s : Rig} {m : Msg} {acts : List Action} : s.todo = some (.send m :: acts) →
      s.pipe.chunks.length < chunkRoom →
      Step cfg s
        { s with
          todo := some acts
          pipe :=
            { s.pipe with chunks := s.pipe.chunks ++ [m.bytes], sent := s.pipe.sent ++ m.bytes } }
  /-- The injector thread sleeps. -/
  | sleep {s : Rig} {ms : ℕ} {acts : List Action} : s.todo = some (.sleep ms :: acts) →
      Step cfg s { s with todo := some acts }
  /-- The injector thread goes back to `blocking_recv`. -/
  | block {s : Rig} : s.todo = some [] → Step cfg s { s with todo := none }
  /-- The receiving side makes a step; frames are received only while the host listens. -/
  | serve {s : Rig} {pipe : Pipe} : s.pipe.Serves pipe →
      (pipe.received = s.pipe.received ∨ s.Listens) → Step cfg s { s with pipe }

/-- The states that some interleaving reaches. -/
def Reached (cfg : CampaignConfig) : Rig → Prop :=
  Relation.ReflTransGen (Step cfg) initial

/-! ### The injector stays silent -/

/-- A parser that holds nothing hears nothing in a PING, and holds nothing afterwards. -/
theorem simBytes_ping {p : FrameParser} (hp : p.Ready) (hempty : p.pending = []) :
    ∃ p', simBytes p none encodePing.toVec = some (p', none, []) ∧ p'.Ready ∧ p'.pending = [] := by
  have hapart : ∀ f ∈ [ControlMsg.ping.frame], f.Apart := by decide +kernel
  obtain ⟨hpend, houts⟩ := Frame.feeds_frames hapart
  obtain ⟨p', hrun, hp', hready⟩ := FrameParser.push_simulates.run encodePing.toVec hp
  obtain ⟨p'', outs, hrun', -, hsim⟩ := simBytes_eq hp none encodePing.toVec
  obtain ⟨rfl, rfl⟩ := Prod.mk.inj (Option.some.inj (hrun'.symm.trans hrun))
  rw [hempty] at hp' hsim
  refine ⟨p'', ?_, hready, hp'.trans hpend⟩
  have hheard : commands (Transducer.feeds settle [] encodePing.toVec).2 = [] := by
    rw [commands_eq]
    exact congrArg (·.filterMap Decoded.command) houts |>.trans (commands_reports [.ping])
  rw [hsim, hheard]
  rfl

/-- **The invariant.** The injector has nothing to say, only PINGs are on their way to it, and the
receiving side has had nothing to do. -/
structure Deaf (s : Rig) : Prop where
  outbound : ∀ chunk ∈ s.outbound, chunk = encodePing.toVec
  ready : s.parser.Ready
  empty : s.parser.pending = []
  cfg : s.cfg = none
  todo : ∀ acts ∈ s.todo, acts = []
  pipe : s.pipe = .initial
  caller : s.caller ≠ .started

/-- In the beginning nothing has been sent. -/
theorem deaf_initial : Deaf initial :=
  ⟨by simp [initial], FrameParser.ready_new, rfl, rfl, by simp [initial], rfl, by simp [initial]⟩

/-- An idle receiving side has nothing to do. -/
theorem not_serves_initial (pipe : Pipe) : ¬ Pipe.initial.Serves pipe := by
  intro h
  have hless := h.work_lt
  obtain ⟨hstep, -⟩ := h
  cases hstep with
  | send chunk _ => simp [Pipe.work, Pipe.initial, Pipe.inProgress] at hless
  | recv _ hqueue => simp [Pipe.initial] at hqueue
  | push hcurrent _ _ => simp [Pipe.initial] at hcurrent
  | hold hcurrent _ _ => simp [Pipe.initial] at hcurrent
  | deliver hcurrent _ _ _ => simp [Pipe.initial] at hcurrent
  | finish hcurrent => simp [Pipe.initial] at hcurrent
  | shake _ hqueue => simp [Pipe.initial] at hqueue
  | take _ hqueue => simp [Pipe.initial] at hqueue

/-- **One step**, of whichever party, leaves the injector without anything to say. -/
theorem Deaf.step {cfg : CampaignConfig} {s s' : Rig} (h : Deaf s) (hstep : Step cfg s s') :
    Deaf s' := by
  cases hstep with
  | ping _ _ =>
      refine { h with outbound := fun chunk hchunk => ?_, caller := by simp }
      exact (List.mem_append.mp hchunk).elim (h.outbound chunk) List.mem_singleton.mp
  | timeout _ _ => exact { h with caller := by simp }
  | start _ hphase _ => exact nomatch (congrArg Pipe.phase h.pipe).symm.trans hphase
  | @wake chunk rest p c acts _ hqueue hbytes =>
      obtain rfl : chunk = encodePing.toVec := h.outbound chunk (by simp [hqueue])
      obtain ⟨p', hsilent, hready, hempty⟩ := simBytes_ping h.ready h.empty
      rw [h.cfg, hsilent] at hbytes
      obtain ⟨rfl, rfl, rfl⟩ : p' = p ∧ none = c ∧ [] = acts := by simpa using hbytes
      refine ⟨fun chunk hchunk => h.outbound chunk ?_, hready, hempty, rfl, ?_, h.pipe, h.caller⟩
      · rw [hqueue]
        exact List.mem_cons_of_mem _ hchunk
      · simp [advance]
  | emit htodo _ => exact absurd (h.todo _ htodo) (by simp)
  | sleep htodo => exact absurd (h.todo _ htodo) (by simp)
  | block _ => exact { h with todo := by simp }
  | serve hserves _ =>
      rw [h.pipe] at hserves
      exact absurd hserves (not_serves_initial _)

/-- What the program can still do: PING and the timeout, and a wake and a block for every chunk. -/
def left (s : Rig) : ℕ :=
  (match s.caller with
    | .calling => 4
    | .waiting => 1
    | .started | .failed => 0) + 2 * s.outbound.length + (if s.todo.isSome then 1 else 0)

/-- The program runs down. -/
theorem runsDown (cfg : CampaignConfig) : RunsDown (Step cfg) Deaf left where
  keeps _ _ hs hstep := hs.step hstep
  decreases s t hs hstep := by
    cases hstep with
    | ping hcaller _ => simp [left, hcaller]; omega
    | timeout hcaller _ => simp [left, hcaller]
    | start _ hphase _ => exact nomatch (congrArg Pipe.phase hs.pipe).symm.trans hphase
    | wake htodo hqueue _ => simp [left, htodo, hqueue]; omega
    | emit htodo _ => exact absurd (hs.todo _ htodo) (by simp)
    | sleep htodo => exact absurd (hs.todo _ htodo) (by simp)
    | block htodo => simp [left, htodo]
    | serve hserves _ =>
        rw [hs.pipe] at hserves
        exact absurd hserves (not_serves_initial _)

/-- Until the handshake has failed, some party has a step to make. -/
theorem Deaf.exists_step (cfg : CampaignConfig) {s : Rig} (h : Deaf s)
    (hfailed : s.caller ≠ .failed) : ∃ t, Step cfg s t := by
  cases htodo : s.todo with
  | some acts =>
      obtain rfl := h.todo acts htodo
      exact ⟨_, .block htodo⟩
  | none =>
      cases hqueue : s.outbound with
      | cons chunk rest =>
          obtain rfl : chunk = encodePing.toVec := h.outbound chunk (by simp [hqueue])
          obtain ⟨p, hsilent, -, -⟩ := simBytes_ping h.ready h.empty
          exact ⟨_, .wake htodo hqueue (by rw [h.cfg]; exact hsilent)⟩
      | nil =>
          cases hcaller : s.caller with
          | calling => exact ⟨_, .ping hcaller (by rw [hqueue]; decide)⟩
          | waiting => exact ⟨_, .timeout hcaller (by rw [h.pipe]; rfl)⟩
          | started => exact absurd hcaller h.caller
          | failed => exact absurd hcaller hfailed

/-- **The simulated link is never confirmed.** Whatever campaign is asked for and however the
parties interleave, the injector never sends a byte, the handshake never receives a frame, and no
START is ever sent. The whole program makes four steps at most, and wherever it cannot go on the
handshake has failed. -/
theorem never_confirmed (cfg : CampaignConfig) :
    (∀ s, Reached cfg s → s.pipe.sent = [] ∧ s.pipe.received = [] ∧
      s.pipe.phase = .handshake ∧ s.caller ≠ .started) ∧
    (∀ (run : ℕ → Rig) (n : ℕ), run 0 = initial → (∀ i < n, Step cfg (run i) (run (i + 1))) →
      n ≤ 4) ∧
    ∀ t, Reached cfg t → Final (Step cfg) t → t.caller = .failed := by
  have hdown := runsDown cfg
  refine ⟨fun s hs => ?_, fun run n hrun hsteps => ?_, fun t ht hfinal => ?_⟩
  · have hdeaf := hdown.inv_of_run deaf_initial hs
    rw [hdeaf.pipe]
    exact ⟨rfl, rfl, rfl, hdeaf.caller⟩
  · obtain ⟨-, hlength⟩ := hdown.length_le (by rw [hrun]; exact deaf_initial) hsteps
    rw [hrun] at hlength
    exact (Nat.le_add_left _ _).trans hlength
  · by_contra hfailed
    obtain ⟨u, hu⟩ := (hdown.inv_of_run deaf_initial ht).exists_step cfg hfailed
    exact hfinal u hu

end Rig

end FaultForge
