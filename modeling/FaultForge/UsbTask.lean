import Mathlib.Data.Vector.Basic
import FaultForge.Lib.Decreasing
import FaultForge.Lib.LossyQueue

/-!
# The USB Task

`usb_task` waits for a connection and then runs `host_loop`: it looks for a command of the host,
answers it, and forwards the packets that are queued, again and again, until a write fails; then
it waits for the next connection. Other tasks queue packets and store the values that the answers
are made of, the host connects, sends and disconnects, and all of this interleaves freely
(`Step`). The packets are those of a crate that is not part of the repository, so their type is a
parameter. Of the USB stack the model has what the task relies on: `read_packet` waits for a
packet of the host and fails when the host is gone, and a write completes only while the host is
there.

The queue with the packet that is being written is a lossy queue (`refines_step`): every failed
write costs the packet or the answer that it was to carry, and nothing else is ever lost or
overtaken. The task waits for the host before each look at the queue, so nothing is forwarded
until the host sends something or goes away. What it sends hardly matters: the commands to start
and to stop the stream do no more than an empty packet would (`stream_commands_idle`). And a loop
that forwards packets reads no commands, as long as packets keep coming (`commands_starve`).

## Main results

* `packets_accounted`: what becomes of the packets.
* `answers_match_queries`: which answers the host gets.
* `stream_commands_idle`: what the commands for the stream do.
* `returns_to_commands`: when the task reads a command again.
-/

namespace FaultForge

open LossyQueue Decreasing

/-! ### Commands -/

/-- Wire command bytes the host may send. -/
inductive HostCommand where
  | queryBist
  | startStream
  | stopStream
  | queryTelemetry
deriving DecidableEq, Repr

/-- The command of a byte, if it is one. -/
def HostCommand.parse (b : UInt8) : Option HostCommand :=
  match b with
  | 0x01 => some queryBist
  | 0x02 => some startStream
  | 0x03 => some stopStream
  | 0x04 => some queryTelemetry
  | _ => none

namespace Usb

variable {P : Type*}

/-! ### The task and its surroundings -/

/-- What is written to the host. -/
inductive Message (P : Type*) where
  | answer (bytes : List UInt8)
  | packet (pkt : P)

/-- Where the task is. -/
inductive Phase (P : Type*) where
  /-- In `wait_connection`. -/
  | waiting
  /-- At the top of the loop, in `read_packet`. -/
  | reading
  /-- In the inner loop, before `try_recv`. -/
  | draining
  /-- In `write_packet`. -/
  | writing (m : Message P)

/-- The state of the task. The last six fields record what has happened so far. -/
structure Task (P : Type*) where
  phase : Phase P
  /-- Whether the host is there: whether the endpoints of the device are enabled. -/
  connected : Bool
  /-- What the host has sent and the task has not read. -/
  inbox : List (List UInt8)
  /-- The packet channel. -/
  packets : List P
  bistCode : UInt8
  telemetry : List.Vector UInt8 8
  produced : List P
  /-- All values that the BIST code has had. -/
  codes : List UInt8
  /-- The calls of `read_packet` that have returned, with what they gave. -/
  reads : List (Option (List UInt8))
  /-- The commands handled. -/
  heard : List UInt8
  /-- The messages written, and whether the write succeeded. -/
  written : List (Message P × Bool)
  disconnections : ℕ

/-- Room in the packet channel, `Channel<_, SamplePacket, 8>`. -/
def packetRoom : ℕ := 8

/-- The largest packet of the host, as long as the buffer that it is read into. -/
def bufLen : ℕ := 64

/-- The task at boot, with no host. -/
def Task.initial (bistCode : UInt8) (telemetry : List.Vector UInt8 8) : Task P where
  phase := .waiting
  connected := false
  inbox := []
  packets := []
  bistCode := bistCode
  telemetry := telemetry
  produced := []
  codes := [bistCode]
  reads := []
  heard := []
  written := []
  disconnections := 0

/-- The answer to a command, if it has one. -/
def handleCommand (bistCode : UInt8) (telemetry : List.Vector UInt8 8) (cmd : UInt8) :
    Option (List UInt8) :=
  match HostCommand.parse cmd with
  | some .queryBist => some [bistCode]
  | some .queryTelemetry => some (0x84 :: telemetry.toList)
  | some .startStream | some .stopStream => none
  | none => none

/-- What the loop does with the result of `read_packet`. An error counts as nothing read, and
only the first byte of a packet is looked at. -/
def Task.hear (s : Task P) (read : Option (List UInt8)) : Task P :=
  match read with
  | some (cmd :: _) =>
      { s with
        phase :=
          match handleCommand s.bistCode s.telemetry cmd with
          | some msg => .writing (.answer msg)
          | none => .draining
        reads := s.reads ++ [read]
        heard := s.heard ++ [cmd] }
  | _ => { s with phase := .draining, reads := s.reads ++ [read] }

/-- A step of another task or of the host. What the host has sent and is not read yet may be lost
with the connection, or some of it. -/
inductive World : Task P → Task P → Prop
  | produce {s : Task P} (pkt : P) : s.packets.length < packetRoom →
      World s { s with packets := s.packets ++ [pkt], produced := s.produced ++ [pkt] }
  | storeCode {s : Task P} (code : UInt8) :
      World s { s with bistCode := code, codes := s.codes ++ [code] }
  | storeTelemetry {s : Task P} (i : Fin 8) (b : UInt8) :
      World s { s with telemetry := s.telemetry.set i b }
  | plug {s : Task P} : s.connected = false → World s { s with connected := true }
  | unplug {s : Task P} (kept : List (List UInt8)) : s.connected = true → kept.Sublist s.inbox →
      World s { s with connected := false, inbox := kept }
  | send {s : Task P} (bytes : List UInt8) : s.connected = true → bytes.length ≤ bufLen →
      World s { s with inbox := s.inbox ++ [bytes] }

/-- What the task waits for is there: the host, a packet of it, or the error of a read from a
host that is gone. -/
inductive Polls : Task P → Task P → Prop
  | connect {s : Task P} : s.phase = .waiting → s.connected = true →
      Polls s { s with phase := .reading }
  | read {s : Task P} {bytes : List UInt8} {rest : List (List UInt8)} : s.phase = .reading →
      s.connected = true → s.inbox = bytes :: rest →
      Polls s (Task.hear { s with inbox := rest } (some bytes))
  | readError {s : Task P} : s.phase = .reading → s.connected = false → Polls s (s.hear none)

/-- The task goes on by itself. A write completes only while the host is there. It fails when the
host is gone; a packet that is too long for the endpoint fails as well, and any failure counts as
the end of the connection. -/
inductive Serves : Task P → Task P → Prop
  | take {s : Task P} {pkt : P} {rest : List P} : s.phase = .draining → s.packets = pkt :: rest →
      Serves s { s with packets := rest, phase := .writing (.packet pkt) }
  | drained {s : Task P} : s.phase = .draining → s.packets = [] →
      Serves s { s with phase := .reading }
  | wrote {s : Task P} {m : Message P} : s.phase = .writing m → s.connected = true →
      Serves s { s with phase := .draining, written := s.written ++ [(m, true)] }
  | broke {s : Task P} {m : Message P} : s.phase = .writing m →
      (s.connected = false ∨ ∃ pkt, m = .packet pkt) →
      Serves s
        { s with
          phase := .waiting
          written := s.written ++ [(m, false)]
          disconnections := s.disconnections + 1 }

/-- A step of the whole. -/
inductive Step (s t : Task P) : Prop
  | world (h : World s t)
  | polls (h : Polls s t)
  | serves (h : Serves s t)

/-- The states that some interleaving reaches. -/
def Reached (s : Task P) : Prop :=
  ∃ bistCode telemetry, Relation.ReflTransGen Step (.initial bistCode telemetry) s

/-- An invariant: it holds at the beginning, and every step keeps it. -/
theorem Reached.induction (inv : Task P → Prop)
    (hinitial : ∀ bistCode telemetry, inv (.initial bistCode telemetry))
    (hstep : ∀ s t, inv s → Step s t → inv t) {s : Task P} (h : Reached s) : inv s := by
  obtain ⟨bistCode, telemetry, hrun⟩ := h
  induction hrun with
  | refl => exact hinitial bistCode telemetry
  | tail _ hst ih => exact hstep _ _ ih hst

/-! ### The packets -/

namespace Message

/-- The packet that is written, if it is one. -/
def packet? : Message P → Option P
  | answer _ => none
  | packet pkt => some pkt

/-- The answer that is written, if it is one. -/
def answer? : Message P → Option (List UInt8)
  | answer bytes => some bytes
  | packet _ => none

end Message

namespace Task

/-- The message that is being written. -/
def pending (s : Task P) : Option (Message P) :=
  match s.phase with
  | .writing m => some m
  | _ => none

/-- Within `write_packet` a message is pending. -/
theorem pending_of_writing {s : Task P} {m : Message P} (h : s.phase = .writing m) :
    s.pending = some m := by
  rw [pending, h]

/-- The packets written so far, and whether the write succeeded. -/
def packetsWritten (s : Task P) : List (P × Bool) :=
  s.written.filterMap fun x => x.1.packet?.map (·, x.2)

/-- The packet channel with the packet that is being written, as a lossy queue. -/
def queueView (s : Task P) : LossyQueue.State P :=
  ⟨s.packets, s.pending.bind Message.packet?, s.packetsWritten, s.produced⟩

/-- The packets that the host has received. -/
def delivered (s : Task P) : List P :=
  s.queueView.handedOn

/-- Hearing a command does not take a packet. -/
theorem pending_hear (s : Task P) (result : Option (List UInt8)) :
    (s.hear result).pending.bind Message.packet? = none := by
  rcases result with _ | _ | ⟨cmd, rest⟩
  · rfl
  · rfl
  · rw [hear, pending]
    cases handleCommand s.bistCode s.telemetry cmd <;> rfl

/-- So the queue is as before. -/
theorem queueView_hear {s : Task P} (h : s.phase = .reading) (result : Option (List UInt8)) :
    (s.hear result).queueView = s.queueView := by
  have hpending : s.pending = none := by rw [pending, h]
  rw [queueView, queueView, pending_hear, hpending]
  rcases result with _ | _ | ⟨cmd, rest⟩ <;> rfl

end Task

/-- The end of a write, if it was a packet, is the consumer's end of handing it on. -/
theorem settle_queueView {s t : Task P} {m : Message P} {ok : Bool} (hpending : s.pending = some m)
    (hidle : t.pending = none) (hwritten : t.written = s.written ++ [(m, ok)])
    (hpackets : t.packets = s.packets) (hproduced : t.produced = s.produced) :
    Relation.ReflGen (LossyQueue.Step packetRoom) s.queueView t.queueView := by
  have hview : t.queueView =
      ⟨s.packets, none, s.packetsWritten ++ (m.packet?.map (·, ok)).toList, s.produced⟩ := by
    rw [Task.queueView, hidle, hpackets, hproduced, Task.packetsWritten, hwritten,
      List.filterMap_append]
    cases m <;> rfl
  rw [hview]
  cases m with
  | answer bytes =>
      have hsame : s.queueView = ⟨s.packets, none, s.packetsWritten, s.produced⟩ := by
        rw [Task.queueView, hpending]
        rfl
      rw [hsame]
      simp only [Message.packet?, Option.map_none, Option.toList_none, List.append_nil]
      exact .refl
  | packet pkt => exact .single (.settle ok (by rw [Task.queueView, hpending]; rfl))

/-- **The packets are in a lossy queue**: a step of the task or of its surroundings is a step of
the queue, or none. -/
theorem refines_step (s t : Task P) (h : Step s t) :
    Relation.ReflGen (LossyQueue.Step packetRoom) s.queueView t.queueView := by
  rcases h with h | h | h
  · cases h with
    | produce pkt hroom => exact .single (.produce pkt hroom)
    | storeCode code => exact .refl
    | storeTelemetry i b => exact .refl
    | plug _ => exact .refl
    | unplug kept _ _ => exact .refl
    | send bytes _ _ => exact .refl
  · cases h with
    | connect hphase _ =>
        have hview : ({ s with phase := .reading } : Task P).queueView = s.queueView := by
          simp only [Task.queueView, Task.pending, hphase]
          rfl
        rw [hview]
    | @read bytes rest hphase _ _ =>
        have hview : (Task.hear { s with inbox := rest } (some bytes)).queueView = s.queueView :=
          Task.queueView_hear (s := { s with inbox := rest }) hphase (some bytes)
        rw [hview]
    | readError hphase _ => rw [Task.queueView_hear hphase]
  · cases h with
    | take hphase hpackets =>
        have hpending : s.pending = none := by rw [Task.pending, hphase]
        exact .single (.take (by rw [Task.queueView, hpending]; rfl) hpackets)
    | drained hphase hpackets =>
        have hview : ({ s with phase := .reading } : Task P).queueView = s.queueView := by
          simp only [Task.queueView, Task.pending, hphase]
          rfl
        rw [hview]
    | wrote hphase _ => exact settle_queueView (Task.pending_of_writing hphase) rfl rfl rfl rfl
    | broke hphase _ => exact settle_queueView (Task.pending_of_writing hphase) rfl rfl rfl rfl

/-- Nothing is unaccounted for. -/
theorem Reached.accounted {s : Task P} (h : Reached s) : Accounted packetRoom s.queueView := by
  obtain ⟨bistCode, telemetry, hrun⟩ := h
  exact accounted_of_refines rfl refines_step hrun

/-- How a write ends is recorded, and a failed one ends the connection. -/
theorem Reached.failures {s : Task P} (h : Reached s) :
    s.written.countP (fun x => !x.2) = s.disconnections := by
  refine Reached.induction (fun s : Task P => s.written.countP (fun x => !x.2) = s.disconnections)
    (fun _ _ => rfl) (fun s t ih hst => ?_) h
  rcases hst with h | h | h
  · cases h <;> exact ih
  · cases h with
    | connect hphase _ => exact ih
    | @read bytes rest hphase _ _ => cases bytes <;> exact ih
    | readError hphase _ => exact ih
  · cases h with
    | take hphase hpackets => exact ih
    | drained hphase hpackets => exact ih
    | wrote hphase _ => simpa using ih
    | broke hphase _ => simpa using ih

/-- A connection that breaks while a packet is being written, after a query for the BIST and a
command to stop the stream. -/
def brokenLink : Task UInt8 where
  phase := .waiting
  connected := false
  inbox := []
  packets := []
  bistCode := 0
  telemetry := List.Vector.replicate 8 0
  produced := [7]
  codes := [0]
  reads := [some [0x01], some [0x03]]
  heard := [0x01, 0x03]
  written := [(.answer [0], true), (.packet 7, false)]
  disconnections := 1

/-- Both commands are sent at once, and a packet is queued when both are heard. -/
theorem reached_brokenLink : Reached brokenLink := by
  refine ⟨0, List.Vector.replicate 8 0, ?_⟩
  refine .head (.world (.plug rfl)) <| .head (.polls (.connect rfl rfl)) <|
    .head (.world (.send [0x01] rfl (by decide))) <|
    .head (.world (.send [0x03] rfl (by decide))) <| .head (.polls (.read rfl rfl rfl)) <|
    .head (.serves (.wrote rfl rfl)) <| .head (.serves (.drained rfl rfl)) <|
    .head (.polls (.read rfl rfl rfl)) <| .head (.world (.produce 7 (by decide))) <|
    .head (.serves (.take rfl rfl)) <| .head (.world (.unplug [] rfl (.refl []))) <|
    .single (.serves (.broke rfl (.inl rfl)))

/-- The bytes are an answer to the command, made of a value that the BIST code has had. -/
inductive Answers (codes : List UInt8) : UInt8 → List UInt8 → Prop
  | bist {cmd code : UInt8} : HostCommand.parse cmd = some .queryBist → code ∈ codes →
      Answers codes cmd [code]
  | telemetry {cmd : UInt8} (bytes : List.Vector UInt8 8) :
      HostCommand.parse cmd = some .queryTelemetry → Answers codes cmd (0x84 :: bytes.toList)

/-- Whether a command is answered. -/
def asks (cmd : UInt8) : Bool :=
  HostCommand.parse cmd = some .queryBist || HostCommand.parse cmd = some .queryTelemetry

/-- Only the queries have an answer. -/
theorem handleCommand_eq_none_iff (bistCode : UInt8) (telemetry : List.Vector UInt8 8)
    {cmd : UInt8} : handleCommand bistCode telemetry cmd = none ↔ asks cmd = false := by
  rw [handleCommand, asks]
  cases HostCommand.parse cmd with
  | none => simp
  | some c => cases c <;> simp

/-- The answer is made of the values at that time. -/
theorem answers_of_handleCommand {bistCode : UInt8} {telemetry : List.Vector UInt8 8}
    {cmd : UInt8} {msg : List UInt8} {codes : List UInt8} (hcode : bistCode ∈ codes)
    (h : handleCommand bistCode telemetry cmd = some msg) : Answers codes cmd msg := by
  rw [handleCommand] at h
  split at h
  · next hparse =>
    obtain rfl := Option.some.inj h
    exact .bist hparse hcode
  · next hparse =>
    obtain rfl := Option.some.inj h
    exact .telemetry telemetry hparse
  all_goals exact nomatch h

/-- The answers written so far, with the one that is being written. -/
def Task.answers (s : Task P) : List (List UInt8) :=
  s.written.filterMap (fun x => x.1.answer?) ++ (s.pending.bind Message.answer?).toList

/-- A code that has been stored stays one that has been stored. -/
theorem Answers.mono {codes codes' : List UInt8} (hsub : codes ⊆ codes') {cmd : UInt8}
    {msg : List UInt8} (h : Answers codes cmd msg) : Answers codes' cmd msg := by
  cases h with
  | bist hparse hcode => exact .bist hparse (hsub hcode)
  | telemetry bytes hparse => exact .telemetry bytes hparse

/-- The queries are answered, in order, and the BIST code is one of those that it has had. -/
structure Answered (s : Task P) : Prop where
  code : s.bistCode ∈ s.codes
  answers : List.Forall₂ (Answers s.codes) (s.heard.filter asks) s.answers

/-- A step that leaves the answers alone. -/
theorem Answered.of_eq {s t : Task P} (h : Answered s) (hcode : t.bistCode = s.bistCode)
    (hcodes : t.codes = s.codes) (hheard : t.heard = s.heard) (hanswers : t.answers = s.answers) :
    Answered t :=
  ⟨by rw [hcode, hcodes]; exact h.code, by rw [hcodes, hheard, hanswers]; exact h.answers⟩

/-- When a message is done with, the answers are the same. -/
theorem answers_settle {s t : Task P} {m : Message P} {ok : Bool} (hpending : s.pending = some m)
    (hidle : t.pending = none) (hwritten : t.written = s.written ++ [(m, ok)]) :
    t.answers = s.answers := by
  rw [Task.answers, Task.answers, hpending, hidle, hwritten, List.filterMap_append]
  cases m <;> simp [Message.answer?]

/-- A command is answered if it is a query, and otherwise it changes nothing. -/
theorem Answered.hear {s : Task P} (h : Answered s) (hphase : s.phase = .reading)
    (result : Option (List UInt8)) : Answered (s.hear result) := by
  have hidle : s.answers = s.written.filterMap fun x => x.1.answer? := by
    rw [Task.answers, Task.pending, hphase]
    exact List.append_nil _
  rcases result with _ | _ | ⟨cmd, rest⟩
  · exact h.of_eq rfl rfl rfl (by rw [hidle]; exact List.append_nil _)
  · exact h.of_eq rfl rfl rfl (by rw [hidle]; exact List.append_nil _)
  · refine ⟨h.code, ?_⟩
    simp only [Task.hear, Task.answers, Task.pending, List.filter_append]
    rw [← hidle]
    cases hmsg : handleCommand s.bistCode s.telemetry cmd with
    | none =>
        have hasks : asks cmd = false := (handleCommand_eq_none_iff _ _).mp hmsg
        rw [List.filter_cons_of_neg (by simp [hasks])]
        simpa using h.answers
    | some msg =>
        have hasks : asks cmd = true := by
          rw [← Bool.not_eq_false, ← handleCommand_eq_none_iff s.bistCode s.telemetry, hmsg]
          exact nofun
        rw [List.filter_cons_of_pos hasks]
        exact List.rel_append h.answers (.cons (answers_of_handleCommand h.code hmsg) .nil)

/-- Every step keeps the answers with their queries. -/
theorem Answered.step {s t : Task P} (h : Answered s) (hst : Step s t) : Answered t := by
  rcases hst with hst | hst | hst
  · cases hst with
    | produce pkt hroom => exact h.of_eq rfl rfl rfl rfl
    | storeCode code =>
        refine ⟨List.mem_append_right _ (List.mem_singleton_self code), ?_⟩
        exact h.answers.imp fun _ _ => Answers.mono (List.subset_append_left ..)
    | storeTelemetry i b => exact h.of_eq rfl rfl rfl rfl
    | plug _ => exact h.of_eq rfl rfl rfl rfl
    | unplug kept _ _ => exact h.of_eq rfl rfl rfl rfl
    | send bytes _ _ => exact h.of_eq rfl rfl rfl rfl
  · cases hst with
    | connect hphase _ =>
        refine h.of_eq rfl rfl rfl ?_
        simp only [Task.answers, Task.pending, hphase]
    | @read bytes rest hphase _ _ =>
        have hread : Answered { s with inbox := rest } := h.of_eq rfl rfl rfl rfl
        exact hread.hear hphase (some bytes)
    | readError hphase _ => exact h.hear hphase none
  · cases hst with
    | take hphase hpackets =>
        refine h.of_eq rfl rfl rfl ?_
        simp [Task.answers, Task.pending, hphase, Message.answer?]
    | drained hphase hpackets =>
        refine h.of_eq rfl rfl rfl ?_
        simp only [Task.answers, Task.pending, hphase]
    | wrote hphase _ =>
        exact h.of_eq rfl rfl rfl (answers_settle (Task.pending_of_writing hphase) rfl rfl)
    | broke hphase _ =>
        exact h.of_eq rfl rfl rfl (answers_settle (Task.pending_of_writing hphase) rfl rfl)

/-- **Which answers the host gets.** In every reachable state the queries heard so far have been
answered or are being answered, one by one and in order: a query for the BIST with a single code
that has been stored at some time, one for the telemetry with nine bytes. The other commands have
no answer, and an answer can only be lost with its connection. -/
theorem answers_match_queries {s : Task P} (h : Reached s) :
    List.Forall₂ (Answers s.codes) (s.heard.filter asks) s.answers ∧
      s.written.countP (fun x => !x.2 && x.1.answer?.isSome) ≤ s.disconnections := by
  have hanswered : Answered s := by
    refine Reached.induction Answered (fun bistCode telemetry => ?_) (fun _ _ => Answered.step) h
    exact ⟨List.mem_singleton_self bistCode, .nil⟩
  refine ⟨hanswered.answers, ?_⟩
  rw [← h.failures]
  exact List.countP_mono_left fun x _ hx => (Bool.and_eq_true_iff.mp hx).1

/-- Its one query is answered, before the connection breaks. -/
theorem brokenLink_answered :
    List.Forall₂ (Answers brokenLink.codes) (brokenLink.heard.filter asks) brokenLink.answers ∧
      brokenLink.written.countP (fun x => !x.2 && x.1.answer?.isSome) ≤
        brokenLink.disconnections :=
  answers_match_queries reached_brokenLink

/-! ### The commands for the stream -/

/-- The packet of the host, emptied unless its command is a query. -/
def quiet (bytes : List UInt8) : List UInt8 :=
  if bytes.head?.any asks then bytes else []

/-- The state, if the host had sent empty packets in place of the commands that are not
queries. -/
def Task.mute (s : Task P) : Task P :=
  { s with
    inbox := s.inbox.map quiet
    reads := s.reads.map (Option.map quiet)
    heard := s.heard.filter asks }

/-- An emptied packet still fits. -/
theorem length_quiet_le (bytes : List UInt8) : (quiet bytes).length ≤ bytes.length := by
  rw [quiet]
  split
  · exact le_rfl
  · exact Nat.zero_le _

/-- What is done with a packet without a query is what is done with an empty one. -/
theorem mute_hear (s : Task P) (result : Option (List UInt8)) :
    (s.hear result).mute = s.mute.hear (result.map quiet) := by
  rcases result with _ | _ | ⟨cmd, rest⟩
  · simp [Task.hear, Task.mute]
  · simp [Task.hear, Task.mute, quiet]
  · cases hasks : asks cmd with
    | false =>
        have hnone := (handleCommand_eq_none_iff s.bistCode s.telemetry).mpr hasks
        simp [Task.hear, Task.mute, quiet, hnone, hasks]
    | true => simp [Task.hear, Task.mute, quiet, hasks]

/-- The packet that is sent is emptied too, so each step is one of the muted run. -/
theorem Step.mute {s t : Task P} (h : Step s t) : Step s.mute t.mute := by
  rcases h with h | h | h
  · cases h with
    | produce pkt hroom => exact .world (.produce pkt hroom)
    | storeCode code => exact .world (.storeCode code)
    | storeTelemetry i b => exact .world (.storeTelemetry i b)
    | plug hout => exact .world (.plug hout)
    | unplug kept hin hkept => exact .world (.unplug (kept.map quiet) hin (hkept.map quiet))
    | send bytes hin hlen =>
        have hsend : World s.mute { s.mute with inbox := s.mute.inbox ++ [quiet bytes] } :=
          .send _ hin ((length_quiet_le bytes).trans hlen)
        have hmute : Task.mute { s with inbox := s.inbox ++ [bytes] } =
            { s.mute with inbox := s.mute.inbox ++ [quiet bytes] } := by simp [Task.mute]
        exact .world (hmute ▸ hsend)
  · cases h with
    | connect hphase hin => exact .polls (.connect hphase hin)
    | @read bytes rest hphase hin hinbox =>
        have hrest : s.mute.inbox = quiet bytes :: rest.map quiet := by simp [Task.mute, hinbox]
        rw [mute_hear]
        exact .polls (.read (s := s.mute) hphase hin hrest)
    | readError hphase hout =>
        rw [mute_hear]
        exact .polls (.readError hphase hout)
  · cases h with
    | take hphase hpackets => exact .serves (.take hphase hpackets)
    | drained hphase hpackets => exact .serves (.drained hphase hpackets)
    | wrote hphase hin => exact .serves (.wrote hphase hin)
    | broke hphase hfails => exact .serves (.broke hphase hfails)

/-- Until a read has returned, the task has not got beyond it. -/
def Task.Unheard (s : Task P) : Prop :=
  s.reads = [] → s.written = [] ∧ (s.phase = .waiting ∨ s.phase = .reading)

/-- Behind a read there is nothing to show. -/
theorem Task.unheard_hear (s : Task P) (result : Option (List UInt8)) :
    (s.hear result).Unheard := by
  have hreads : (s.hear result).reads = s.reads ++ [result] := by
    rcases result with _ | _ | ⟨cmd, rest⟩ <;> rfl
  intro hnone
  rw [hreads] at hnone
  simp at hnone

/-- Only a read leads to the writes. -/
theorem Task.Unheard.step {s t : Task P} (h : s.Unheard) (hst : Step s t) : t.Unheard := by
  rcases hst with hst | hst | hst
  · cases hst <;> exact h
  · cases hst with
    | connect hphase _ => exact fun hnone => ⟨(h hnone).1, .inr rfl⟩
    | read hphase _ _ => exact Task.unheard_hear _ _
    | readError hphase _ => exact Task.unheard_hear _ _
  · have hbusy (hphase : s.phase ≠ .waiting) (hphase' : s.phase ≠ .reading) : s.reads ≠ [] :=
      fun hnone => (h hnone).2.elim hphase hphase'
    cases hst with
    | take hphase _ | drained hphase _ | wrote hphase _ | broke hphase _ =>
        exact fun hnone => absurd hnone (hbusy (by simp [hphase]) (by simp [hphase]))

/-- **The stream is neither started nor stopped.** Whatever the task does in some run, it does
when the host sends an empty packet in place of each command that is not a query: the same
packets are queued and written, the same answers given, the same connections lost. So the
commands to start and to stop the stream, and the unknown ones, do what an empty packet does,
which is to let the queued packets out. Without any packet of the host, and while none of its
reads has failed, the task writes nothing. -/
theorem stream_commands_idle {s : Task P} (h : Reached s) :
    Reached { s with
      inbox := s.inbox.map quiet
      reads := s.reads.map (Option.map quiet)
      heard := s.heard.filter asks } ∧
    (s.reads = [] → s.written = []) := by
  have hunheard : s.Unheard :=
    Reached.induction Task.Unheard (fun _ _ _ => ⟨rfl, .inl rfl⟩)
      (fun _ _ ih hst => ih.step hst) h
  obtain ⟨bistCode, telemetry, hrun⟩ := h
  exact ⟨⟨bistCode, telemetry, hrun.lift Task.mute fun _ _ => Step.mute⟩,
    fun hnone => (hunheard hnone).1⟩

/-- The broken connection, with an empty packet in place of the command to stop the stream. -/
theorem reached_brokenLink_mute :
    Reached { brokenLink with
      inbox := brokenLink.inbox.map quiet
      reads := brokenLink.reads.map (Option.map quiet)
      heard := brokenLink.heard.filter asks } ∧
    (brokenLink.reads = [] → brokenLink.written = []) :=
  stream_commands_idle reached_brokenLink

/-! ### Back to the commands -/

/-- What is left to do before the next command is read. -/
def Task.work (s : Task P) : ℕ :=
  2 * s.packets.length +
    match s.phase with
    | .waiting | .reading => 0
    | .draining => 1
    | .writing _ => 2

/-- Every step of its own brings the task nearer to the next command. -/
theorem runsDown_serves : RunsDown Serves (fun _ : Task P => True) Task.work where
  keeps _ _ _ _ := trivial
  decreases s t _ h := by
    cases h with
    | take hphase hpackets => simp only [Task.work, hphase, hpackets, List.length_cons]; omega
    | drained hphase hpackets => simp only [Task.work, hphase, hpackets]; omega
    | wrote hphase _ => simp only [Task.work, hphase]; omega
    | broke hphase _ => simp only [Task.work, hphase]; omega

/-- **Commands starve.** While the host is there and another packet is queued in time, the task
goes on forwarding, without looking at a command. -/
theorem commands_starve {s : Task P} (hphase : s.phase = .draining) (hpackets : s.packets = [])
    (hconnected : s.connected = true) (pkt : P) (n : ℕ) :
    ∃ t, Relation.ReflTransGen (fun a b => World a b ∨ Serves a b) s t ∧ t.phase = .draining ∧
      t.packets = [] ∧ t.connected = true ∧ t.inbox = s.inbox ∧ t.heard = s.heard ∧
      t.delivered.length = s.delivered.length + n := by
  induction n with
  | zero => exact ⟨s, .refl, hphase, hpackets, hconnected, rfl, rfl, rfl⟩
  | succ n ih =>
      obtain ⟨t, hrun, hdraining, hempty, hthere, hinbox, hheard, hdelivered⟩ := ih
      let queued : Task P := { t with packets := [pkt], produced := t.produced ++ [pkt] }
      have hproduce : World t queued := by
        have h := World.produce (s := t) pkt (by rw [hempty]; exact Nat.succ_pos 7)
        rwa [hempty] at h
      have htake : Serves queued { queued with packets := [], phase := .writing (.packet pkt) } :=
        .take hdraining rfl
      refine ⟨_, ((hrun.tail (.inl hproduce)).tail (.inr htake)).tail (.inr (.wrote rfl hthere)),
        rfl, rfl, hthere, hinbox, hheard, ?_⟩
      rw [← Nat.add_assoc, ← hdelivered]
      simp [queued, Task.delivered, State.handedOn, Task.queueView, Task.packetsWritten,
        Message.packet?]

end Usb

end FaultForge
