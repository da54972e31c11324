import Mathlib.Data.List.ReduceOption
import Mathlib.Logic.Relation
import FaultForge.Control

/-!
# The Receive Pipeline

From the link to the consumer: the sender puts chunks of bytes into one bounded channel,
`parse_stream` pushes their bytes into its parser and puts the frames into another, and the
consumer takes them out, first the handshake and then the campaign. A party waits while the
channel it writes is full or the channel it reads is empty, and the parties interleave freely
(`Step`). The channels are FIFO queues, as long as all their ends are open.

`parse_stream` may have to wait in the middle of a chunk, with the frame of a byte in hand
that the full channel does not take. That byte counts as processed when its frame is
delivered, and until then as part of the chunk in progress.

## Main results

* `pipeline_lossless`: what the consumer has received, what is queued and what is in progress are
  together what was sent, in every reachable state.
* `Reached.push_isSome`: the parser of a reachable state never panics.
* `Reached.parseStream_of_idle`: once everything is processed, the consumer's frames are
  those that `parse_stream` alone makes of the bytes sent.
* `Reached.handedOver`: what the handshake receives, and what the campaign.
-/

namespace FaultForge

/-- Who receives frames. -/
inductive Phase where
  /-- The handshake, waiting for a PONG. -/
  | handshake
  /-- The loop of the campaign. -/
  | campaign
  /-- Past END, with the receiver dropped. -/
  | done
deriving DecidableEq

/-- The state of the pipeline. The last three fields record what has happened so far. -/
structure Pipe where
  /-- The byte channel. -/
  chunks : List (List UInt8)
  parser : FrameParser
  /-- The rest of the chunk that `parse_stream` works on, if any. -/
  current : Option (List UInt8)
  /-- The frame of the first byte of that rest, waiting to be sent. -/
  held : Option DuFrame
  /-- The frame channel. -/
  frames : List DuFrame
  phase : Phase
  /-- All bytes sent. -/
  sent : List UInt8
  /-- All bytes that `parse_stream` is done with. -/
  processed : List UInt8
  /-- All frames that the consumer has received. -/
  received : List DuFrame

/-- Room in the channels, `mpsc::channel(64)` and `mpsc::channel(256)`. -/
def chunkRoom : ℕ := 64
/-- Room in the channel of frames. -/
def frameRoom : ℕ := 256

namespace Pipe

/-- The pipeline when the link is opened. -/
def initial : Pipe where
  chunks := []
  parser := .new
  current := none
  held := none
  frames := []
  phase := .handshake
  sent := []
  processed := []
  received := []

/-- One step of one party. -/
inductive Step : Pipe → Pipe → Prop
  /-- The sender sends a chunk. -/
  | send {s : Pipe} (chunk : List UInt8) : s.chunks.length < chunkRoom →
      Step s { s with chunks := s.chunks ++ [chunk], sent := s.sent ++ chunk }
  /-- `parse_stream` receives a chunk. -/
  | recv {s : Pipe} {chunk : List UInt8} {rest : List (List UInt8)} :
      s.current = none → s.chunks = chunk :: rest →
      Step s { s with chunks := rest, current := some chunk }
  /-- `parse_stream` pushes a byte that gives no outcome. -/
  | push {s : Pipe} {b : UInt8} {bs : List UInt8} {p : FrameParser} :
      s.current = some (b :: bs) → s.held = none → s.parser.push b = some (p, none) →
      Step s { s with parser := p, current := some bs, processed := s.processed ++ [b] }
  /-- `parse_stream` pushes a byte and has a frame to send. -/
  | hold {s : Pipe} {b : UInt8} {bs : List UInt8} {p : FrameParser} {o : Decoded} :
      s.current = some (b :: bs) → s.held = none → s.parser.push b = some (p, some o) →
      Step s { s with parser := p, held := some (.ofDecoded o) }
  /-- `parse_stream` sends the frame. -/
  | deliver {s : Pipe} {b : UInt8} {bs : List UInt8} {f : DuFrame} :
      s.current = some (b :: bs) → s.held = some f → s.frames.length < frameRoom →
      s.phase ≠ .done →
      Step s
        { s with
          current := some bs
          held := none
          frames := s.frames ++ [f]
          processed := s.processed ++ [b] }
  /-- `parse_stream` is done with a chunk. -/
  | finish {s : Pipe} : s.current = some [] → Step s { s with current := none }
  /-- The handshake receives a frame, and is over with a PONG. -/
  | shake {s : Pipe} {f : DuFrame} {rest : List DuFrame} :
      s.phase = .handshake → s.frames = f :: rest →
      Step s
        { s with
          frames := rest
          phase := if f.kind = kPong then .campaign else .handshake
          received := s.received ++ [f] }
  /-- The campaign receives a frame, and leaves its loop on END. -/
  | take {s : Pipe} {f : DuFrame} {rest : List DuFrame} :
      s.phase = .campaign → s.frames = f :: rest →
      Step s
        { s with
          frames := rest
          phase := if dispatch f.kind = .stop then .done else .campaign
          received := s.received ++ [f] }

/-- The states that some interleaving reaches. -/
def Reached : Pipe → Prop :=
  Relation.ReflTransGen Step initial

/-- The chunk in progress, from the byte on that is not processed yet. -/
def inProgress (s : Pipe) : List UInt8 :=
  s.current.getD []

/-- The frames that the outcomes of a parser are passed on as. -/
def images (outs : List (Option Decoded)) : List DuFrame :=
  outs.reduceOption.map DuFrame.ofDecoded

/-- The frames of outcomes in two parts. -/
@[simp] theorem images_append (outs outs' : List (Option Decoded)) :
    images (outs ++ outs') = images outs ++ images outs' := by
  rw [images, List.reduceOption_append, List.map_append]
  rfl

/-! ### The invariant -/

/-- The parser of the task, when `p` is the parser after the bytes processed: it is `p`, or
it has the byte in hand on top of it. -/
def Ahead (s : Pipe) (p : FrameParser) : Prop :=
  match s.held with
  | none => s.parser = p
  | some f => ∃ b bs o, s.current = some (b :: bs) ∧ p.push b = some (s.parser, some o) ∧
      f = .ofDecoded o

/-- **Nothing is lost.** One parser, fed with the bytes processed, gives the frames received
and queued; and the bytes processed, in progress and queued are the bytes sent. -/
structure Lossless (s : Pipe) : Prop where
  parsed : ∃ p outs, FrameParser.new.run s.processed = some (p, outs) ∧
    s.received ++ s.frames = images outs ∧ s.Ahead p
  accounted : s.processed ++ s.inProgress ++ s.chunks.flatten = s.sent

/-- In the beginning nothing has been sent or received. -/
theorem lossless_initial : Lossless initial :=
  ⟨⟨.new, [], rfl, rfl, rfl⟩, rfl⟩

/-- Without a byte in hand the parser is the one after the bytes processed. -/
theorem Ahead.parser_eq {s : Pipe} {p : FrameParser} (h : s.Ahead p) (hheld : s.held = none) :
    s.parser = p := by
  rw [Ahead, hheld] at h
  exact h

/-- A frame in hand is that of the first byte in progress. -/
theorem Ahead.of_held {s : Pipe} {p : FrameParser} {f : DuFrame} (h : s.Ahead p)
    (hheld : s.held = some f) :
    ∃ b bs o, s.current = some (b :: bs) ∧ p.push b = some (s.parser, some o) ∧
      f = .ofDecoded o := by
  rw [Ahead, hheld] at h
  exact h

/-- Between two chunks, and at the end of one, no frame is in hand. -/
theorem Ahead.held_eq_none {s : Pipe} {p : FrameParser} (h : s.Ahead p)
    (hempty : s.inProgress = []) : s.held = none := by
  cases hheld : s.held with
  | none => rfl
  | some f =>
      obtain ⟨b, bs, o, hcurrent, -⟩ := h.of_held hheld
      simp [inProgress, hcurrent] at hempty

/-- **One step**, of whichever party, loses nothing. -/
theorem Lossless.step {s s' : Pipe} (h : Lossless s) (hstep : Step s s') : Lossless s' := by
  obtain ⟨⟨p, outs, hrun, hframes, hahead⟩, hsent⟩ := h
  cases hstep with
  | send chunk _ =>
      refine ⟨⟨p, outs, hrun, hframes, hahead⟩, ?_⟩
      simp only [inProgress, List.flatten_append, List.flatten_singleton] at hsent ⊢
      rw [← List.append_assoc, hsent]
  | @recv chunk rest hidle hchunks =>
      have hempty : s.inProgress = [] := by rw [inProgress, hidle]; rfl
      have hheld := hahead.held_eq_none hempty
      refine ⟨⟨p, outs, hrun, hframes, ?_⟩, ?_⟩
      · rw [Ahead, hheld]
        exact hahead.parser_eq hheld
      · rw [hempty, hchunks, List.flatten_cons] at hsent
        simpa [inProgress] using hsent
  | @push b bs p' hcurrent hheld hpush =>
      rw [hahead.parser_eq hheld] at hpush
      refine ⟨⟨p', outs ++ [none], Transducer.run_concat hrun hpush, ?_, ?_⟩, ?_⟩
      · rw [hframes, images_append]
        exact (List.append_nil _).symm
      · rw [Ahead, hheld]
      · simpa [inProgress, hcurrent] using hsent
  | @hold b bs p' o hcurrent hheld hpush =>
      rw [hahead.parser_eq hheld] at hpush
      exact ⟨⟨p, outs, hrun, hframes, b, bs, o, hcurrent, hpush, rfl⟩, hsent⟩
  | @deliver b bs f hcurrent hheld _ _ =>
      obtain ⟨b', bs', o, hcurrent', hpush, rfl⟩ := hahead.of_held hheld
      obtain ⟨rfl, rfl⟩ := List.cons.inj (Option.some.inj (hcurrent.symm.trans hcurrent'))
      refine ⟨⟨s.parser, outs ++ [some o], Transducer.run_concat hrun hpush, ?_, rfl⟩, ?_⟩
      · rw [← List.append_assoc, hframes, images_append]
        rfl
      · simpa [inProgress, hcurrent] using hsent
  | finish hcurrent =>
      have hempty : s.inProgress = [] := by rw [inProgress, hcurrent]; rfl
      have hheld := hahead.held_eq_none hempty
      refine ⟨⟨p, outs, hrun, hframes, ?_⟩, ?_⟩
      · rw [Ahead, hheld]
        exact hahead.parser_eq hheld
      · rw [hempty] at hsent
        exact hsent
  | @shake f rest _ hqueue =>
      refine ⟨⟨p, outs, hrun, ?_, hahead⟩, hsent⟩
      rw [← hframes, hqueue, List.append_assoc, List.singleton_append]
  | @take f rest _ hqueue =>
      refine ⟨⟨p, outs, hrun, ?_, hahead⟩, hsent⟩
      rw [← hframes, hqueue, List.append_assoc, List.singleton_append]

/-- **Every run** loses nothing. -/
theorem Reached.lossless {s : Pipe} (h : Reached s) : Lossless s := by
  induction h with
  | refl => exact lossless_initial
  | tail _ hstep ih => exact ih.step hstep

/-- **The receive pipeline loses, duplicates and reorders nothing**, for every way of cutting
the bytes into chunks and every interleaving of the parties: in every reachable state the
frames received, followed by the frames queued, are what one parser makes of the bytes
processed; the bytes processed, in progress and queued are the bytes sent; and the frame in
hand, if any, is what that parser makes of the first byte in progress. -/
theorem pipeline_lossless {s : Pipe} (h : Reached s) :
    (∃ p outs, FrameParser.new.run s.processed = some (p, outs) ∧
      s.received ++ s.frames = images outs ∧
      ∀ f ∈ s.held, ∃ b bs o, s.inProgress = b :: bs ∧ p.push b = some (s.parser, some o) ∧
        f = .ofDecoded o) ∧
    s.processed ++ s.inProgress ++ s.chunks.flatten = s.sent := by
  obtain ⟨⟨p, outs, hrun, hframes, hahead⟩, hsent⟩ := h.lossless
  refine ⟨⟨p, outs, hrun, hframes, fun f hf => ?_⟩, hsent⟩
  obtain ⟨b, bs, o, hcurrent, hpush, hf⟩ := hahead.of_held hf
  exact ⟨b, bs, o, by rw [inProgress, hcurrent]; rfl, hpush, hf⟩

/-- A byte of noise, from the link to the handshake. -/
theorem noise_lossless :
    ∃ s : Pipe, s.sent = [0x55] ∧ s.received = [.ofDecoded .garbage] ∧
      (∃ p outs, FrameParser.new.run s.processed = some (p, outs) ∧
        s.received ++ s.frames = images outs ∧
        ∀ f ∈ s.held, ∃ b bs o, s.inProgress = b :: bs ∧ p.push b = some (s.parser, some o) ∧
          f = .ofDecoded o) ∧
      s.processed ++ s.inProgress ++ s.chunks.flatten = s.sent := by
  obtain ⟨p, hpush, -, -⟩ := FrameParser.push_simulates.step .new 0x55 FrameParser.ready_new
  have hgarbage : (Transducer.feed settle FrameParser.new.pending 0x55).2 = some .garbage := by
    decide
  rw [hgarbage] at hpush
  have hsend := Step.send (s := initial) [0x55] (by decide)
  have hrecv := Step.recv (s := { initial with chunks := [[0x55]], sent := [0x55] }) rfl rfl
  have hhold := Step.hold (p := p)
    (s := { initial with current := some [0x55], sent := [0x55] }) rfl rfl hpush
  have hdeliver := Step.deliver
    (s := { initial with
      parser := p
      current := some [0x55]
      held := some (.ofDecoded .garbage)
      sent := [0x55] }) rfl rfl (by simp [initial, frameRoom]) (by simp [initial])
  have hshake := Step.shake
    (s := { initial with
      parser := p
      current := some []
      frames := [.ofDecoded .garbage]
      sent := [0x55]
      processed := [0x55] }) rfl rfl
  exact ⟨_, rfl, rfl, pipeline_lossless
    (.tail (.tail (.tail (.tail (.tail .refl hsend) hrecv) hhold) hdeliver) hshake)⟩

/-! ### Consequences -/

/-- The channels never hold more than they have room for. -/
theorem Reached.bounded {s : Pipe} (h : Reached s) :
    s.chunks.length ≤ chunkRoom ∧ s.frames.length ≤ frameRoom := by
  have hrest : ∀ {α : Type} {q rest : List α} {a : α} {n : ℕ}, q = a :: rest → q.length ≤ n →
      rest.length ≤ n := by
    rintro α q rest a n rfl hq
    exact Nat.le_of_succ_le hq
  induction h with
  | refl => exact ⟨Nat.zero_le _, Nat.zero_le _⟩
  | tail _ hstep ih =>
      obtain ⟨hchunks, hframes⟩ := ih
      cases hstep with
      | send chunk hroom => exact ⟨by simpa using Nat.succ_le_of_lt hroom, hframes⟩
      | recv _ hqueue => exact ⟨hrest hqueue hchunks, hframes⟩
      | push => exact ⟨hchunks, hframes⟩
      | hold => exact ⟨hchunks, hframes⟩
      | deliver _ _ hroom _ => exact ⟨hchunks, by simpa using Nat.succ_le_of_lt hroom⟩
      | finish => exact ⟨hchunks, hframes⟩
      | shake _ hqueue => exact ⟨hchunks, hrest hqueue hframes⟩
      | take _ hqueue => exact ⟨hchunks, hrest hqueue hframes⟩

/-- The parser of a reachable state never panics. -/
theorem Reached.push_isSome {s : Pipe} (h : Reached s) (b : UInt8) :
    (s.parser.push b).isSome = true := by
  obtain ⟨p, outs, hrun, -, hahead⟩ := h.lossless.parsed
  obtain ⟨p', hrun', -, hready⟩ := FrameParser.push_simulates.run s.processed FrameParser.ready_new
  obtain ⟨rfl, -⟩ := Prod.mk.inj (Option.some.inj (hrun'.symm.trans hrun))
  have hparser : s.parser.Ready := by
    cases hheld : s.held with
    | none => exact hahead.parser_eq hheld ▸ hready
    | some f =>
        obtain ⟨b', bs, o, -, hpush, -⟩ := hahead.of_held hheld
        obtain ⟨q, hpush', -, hready'⟩ := FrameParser.push_simulates.step p' b' hready
        obtain ⟨rfl, -⟩ := Prod.mk.inj (Option.some.inj (hpush'.symm.trans hpush))
        exact hready'
  obtain ⟨q, hpush, -, -⟩ := FrameParser.push_simulates.step s.parser b hparser
  rw [hpush]
  rfl

/-- What `parse_stream` makes of its chunks depends on their bytes only. -/
theorem parseStream_eq (p : FrameParser) (chunks : List (List UInt8)) :
    parseStream p chunks = (p.run chunks.flatten).map fun r => (r.1, images r.2) := by
  induction chunks generalizing p with
  | nil => rfl
  | cons chunk chunks ih =>
      simp only [parseStream, FrameParser.run, List.flatten_cons, Transducer.run_append,
        Option.map_bind, ih]
      refine congrArg _ (funext fun r => ?_)
      simp only [Option.map_map, Function.comp_def, images_append]
      rfl

/-- Once all bytes are processed, the frames received and queued are those that the parser
task alone makes of the bytes sent, however they were cut. -/
theorem Reached.parseStream_of_idle {s : Pipe} (h : Reached s) (hcurrent : s.inProgress = [])
    (hchunks : s.chunks = []) {cut : List (List UInt8)} (hcut : cut.flatten = s.sent) :
    ∃ p, parseStream .new cut = some (p, s.received ++ s.frames) := by
  obtain ⟨⟨p, outs, hrun, hframes, -⟩, hsent⟩ := h.lossless
  rw [hcurrent, hchunks, List.flatten_nil, List.append_nil, List.append_nil] at hsent
  refine ⟨p, ?_⟩
  rw [parseStream_eq, hcut, ← hsent, hrun, hframes]
  rfl

/-- **The receiver is handed over** with the first PONG: the handshake has received that and
what came before it, the campaign what comes behind it up to END. -/
def HandedOver (s : Pipe) : Prop :=
  match s.phase with
  | .handshake => ∀ f ∈ s.received, f.kind ≠ kPong
  | .campaign => ∃ shaken pong fed, s.received = shaken ++ pong :: fed ∧
      (∀ f ∈ shaken, f.kind ≠ kPong) ∧ pong.kind = kPong ∧ ∀ f ∈ fed, dispatch f.kind ≠ .stop
  | .done => ∃ shaken pong fed last, s.received = shaken ++ pong :: fed ++ [last] ∧
      (∀ f ∈ shaken, f.kind ≠ kPong) ∧ pong.kind = kPong ∧
      (∀ f ∈ fed, dispatch f.kind ≠ .stop) ∧ dispatch last.kind = .stop

/-- Whatever the interleaving, the frames are handed over in order. -/
theorem Reached.handedOver {s : Pipe} (h : Reached s) : HandedOver s := by
  induction h with
  | refl => exact fun f hf => absurd hf List.not_mem_nil
  | @tail s s' _ hstep ih =>
      cases hstep with
      | send chunk _ => exact ih
      | recv => exact ih
      | push => exact ih
      | hold => exact ih
      | deliver => exact ih
      | finish => exact ih
      | @shake f rest hphase _ =>
          rw [HandedOver, hphase] at ih
          by_cases hpong : f.kind = kPong
          · simp only [HandedOver, hpong, if_true]
            exact ⟨s.received, f, [], rfl, ih, hpong, by simp⟩
          · simp only [HandedOver, hpong, if_false]
            exact fun g hg => (List.mem_append.mp hg).elim (ih g)
              fun hgf => List.mem_singleton.mp hgf ▸ hpong
      | @take f rest hphase _ =>
          rw [HandedOver, hphase] at ih
          obtain ⟨shaken, pong, fed, hreceived, hshaken, hpong, hfed⟩ := ih
          by_cases hstop : dispatch f.kind = .stop
          · simp only [HandedOver, hstop, if_true]
            exact ⟨shaken, pong, fed, f, by rw [hreceived], hshaken, hpong, hfed, hstop⟩
          · simp only [HandedOver, hstop, if_false]
            refine ⟨shaken, pong, fed ++ [f], by rw [hreceived]; simp, hshaken, hpong, ?_⟩
            exact fun g hg => (List.mem_append.mp hg).elim (hfed g)
              fun hgf => List.mem_singleton.mp hgf ▸ hstop

end Pipe

end FaultForge
