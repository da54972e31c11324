import FaultForge.Bursts
import FaultForge.Pipeline
import FaultForge.Resync

/-!
# Late Listeners

Two hosts listen to one link, and one of them has started later, or has seen other noise so far.
Their parsers agree after a stretch without sync bytes, whatever they hold. Their devices under
test may have recorded different things by then; but what a device does next depends on the last
sensor frame that it has heard and on the garbage since then, and hearing one sensor frame makes
both the same (`Alike.of_heard`). Only the numbers of the frames stay apart, by a constant.

## Main results

* `Alike.receive`: two devices that are alike record the same from there on.
* `late_listener`: from the first sensor frame on that is heard after a quiet stretch, what a
  host records does not depend on what came before.
-/

namespace FaultForge

open Transducer

/-! ### Devices that are alike -/

/-- The detection, with a number of frames processed more. -/
def Detection.later (k : UInt64) (e : Detection) : Detection :=
  { e with frameIdx := e.frameIdx + k }

/-- The truth, with a number of frames processed more. -/
def GroundTruth.later (k : UInt64) (t : GroundTruth) : GroundTruth :=
  { t with frameIdx := t.frameIdx + k }

/-- Two devices that have heard the same last and have the same garbage pending. -/
structure Alike (k : UInt64) (d d' : Dut) : Prop where
  cadenceMs : d'.cadenceMs = d.cadenceMs
  lastSeq : d'.lastSeq = d.lastSeq
  lastTime : d'.lastTime = d.lastTime
  junkRun : d'.junkRun = d.junkRun
  frameIdx : d'.frameIdx = d.frameIdx + k
  armed : d.Armed
  armed' : d'.Armed

/-- What a frame is recorded as. -/
def Dut.recorded (d : Dut) (clock : Clock) (f : DuFrame) : List Detection :=
  (d.burst clock f).toList ++ (d.anomaly clock f).toList

/-- Detections are only ever added. -/
theorem Dut.detections_process (d : Dut) (clock : Clock) (f : DuFrame) :
    (d.process clock f).detections = d.detections ++ d.recorded clock f := by
  rw [process_eq, recorded, List.append_assoc]

namespace Alike

variable {k : UInt64} {d d' : Dut}

/-- **Hearing one sensor frame** makes two devices alike. -/
theorem of_heard (hcadence : d'.cadenceMs = d.cadenceMs) (clock : Clock) {f : DuFrame}
    (hf : Dut.heard f = true) :
    Alike (d'.frameIdx - d.frameIdx) (d.process clock f) (d'.process clock f) := by
  have hgarbage : f.garbage = false := by
    simp only [Dut.heard, Bool.and_eq_true, Bool.not_eq_true'] at hf
    exact hf.1.1
  refine ⟨?_, ?_, ?_, ?_, ?_, Dut.Armed.process clock f, Dut.Armed.process clock f⟩
  · simpa only [Dut.process_eq] using hcadence
  · simp only [Dut.process_eq, hf, if_true]
  · simp only [Dut.process_eq, hf, if_true]
  · simp only [Dut.process_eq, hgarbage, Bool.false_eq_true, if_false]
  · simp only [Dut.process_eq]
    grind

/-- The next frame is recorded as the same. -/
theorem recorded (h : Alike k d d') (clock : Clock) (f : DuFrame) :
    d'.recorded clock f = (d.recorded clock f).map (Detection.later k) := by
  have hnext : d'.nextSeq = d.nextSeq := by rw [Dut.nextSeq, Dut.nextSeq, h.lastSeq]
  have hidx : d'.frameIdx + 1 = d.frameIdx + 1 + k := by
    rw [h.frameIdx]
    grind
  have hcheck : d'.checkSeq f.seq (clock 1) = d.checkSeq f.seq (clock 1) := by
    rw [Dut.checkSeq, Dut.checkSeq, h.lastSeq, h.lastTime, Dut.lateBudgetMs, Dut.lateBudgetMs,
      h.cadenceMs]
  have hburst : (d'.burst clock f).toList = ((d.burst clock f).toList).map (Detection.later k) := by
    rw [h.armed'.burst_eq, h.armed.burst_eq, h.junkRun, hnext, hidx]
    split <;> rfl
  have hanomaly : (d'.anomaly clock f).toList =
      ((d.anomaly clock f).toList).map (Detection.later k) := by
    rw [Dut.anomaly, Dut.anomaly, hnext, hidx, hcheck]
    split
    · rfl
    · split
      · rfl
      · split
        · rfl
        · cases d.checkSeq f.seq (clock 1) <;> rfl
  rw [Dut.recorded, Dut.recorded, List.map_append, hburst, hanomaly]

/-- An announcement is read as the same. -/
theorem fromPayload (h : Alike k d d') (payload : List UInt8) (now : Instant) :
    GroundTruth.fromPayload payload d'.frameIdx now =
      (GroundTruth.fromPayload payload d.frameIdx now).map (GroundTruth.later k) := by
  rw [GroundTruth.fromPayload, GroundTruth.fromPayload, h.frameIdx]
  split <;> rfl

/-- The next frame leaves the devices alike. -/
theorem process (h : Alike k d d') (clock : Clock) (f : DuFrame) :
    Alike k (d.process clock f) (d'.process clock f) where
  cadenceMs := by simpa only [Dut.process_eq] using h.cadenceMs
  lastSeq := by simp only [Dut.process_eq, h.lastSeq]
  lastTime := by simp only [Dut.process_eq, h.lastTime]
  junkRun := by simp only [Dut.process_eq, h.junkRun]
  frameIdx := by
    simp only [Dut.process_eq, h.frameIdx]
    grind
  armed := Dut.Armed.process clock f
  armed' := Dut.Armed.process clock f

/-- **Two devices that are alike** record the same of all that follows. -/
theorem receive (h : Alike k d d') (truths truths' : List GroundTruth)
    (arrivals : List (Clock × DuFrame)) :
    ∃ dets ts,
      (FaultForge.receive d truths arrivals).1.detections = d.detections ++ dets ∧
      (FaultForge.receive d truths arrivals).2 = truths ++ ts ∧
      (FaultForge.receive d' truths' arrivals).1.detections =
        d'.detections ++ dets.map (Detection.later k) ∧
      (FaultForge.receive d' truths' arrivals).2 = truths' ++ ts.map (GroundTruth.later k) := by
  induction arrivals generalizing d d' truths truths' with
  | nil => exact ⟨[], [], by simp [FaultForge.receive]⟩
  | cons x arrivals ih =>
      obtain ⟨clock, f⟩ := x
      rw [FaultForge.receive, FaultForge.receive]
      cases dispatch f.kind with
      | process =>
          obtain ⟨dets, ts, hdets, hts, hdets', hts'⟩ := ih (h.process clock f) truths truths'
          refine ⟨d.recorded clock f ++ dets, ts, ?_, hts, ?_, hts'⟩
          · rw [hdets, Dut.detections_process, List.append_assoc]
          · rw [hdets', Dut.detections_process, h.recorded, List.map_append, List.append_assoc]
      | truth =>
          have htruth := h.fromPayload (f.payload.toList.take f.len) (clock 0)
          simp only
          cases hgt : GroundTruth.fromPayload (f.payload.toList.take f.len) d.frameIdx
              (clock 0) with
          | none =>
              rw [htruth, hgt]
              exact ih h truths truths'
          | some gt =>
              rw [htruth, hgt]
              obtain ⟨dets, ts, hdets, hts, hdets', hts'⟩ :=
                ih h (truths ++ [gt]) (truths' ++ [gt.later k])
              refine ⟨dets, gt :: ts, hdets, ?_, hdets', ?_⟩
              · rw [hts, List.append_assoc, List.singleton_append]
              · simp only [Option.map_some, hts', List.append_assoc, List.singleton_append,
                  List.map_cons]
      | stop => exact ⟨[], [], by simp⟩

end Alike

/-! ### Campaigns with a common end -/

/-- Without an END in it, the first part of a stream is received before the rest. -/
theorem receive_append {early : List (Clock × DuFrame)}
    (hend : ∀ x ∈ early, dispatch x.2.kind ≠ .stop) (d : Dut) (truths : List GroundTruth)
    (rest : List (Clock × DuFrame)) :
    receive d truths (early ++ rest) =
      receive (receive d truths early).1 (receive d truths early).2 rest := by
  induction early generalizing d truths with
  | nil => rfl
  | cons x early ih =>
      obtain ⟨clock, f⟩ := x
      obtain ⟨hstop, hrest⟩ := List.forall_mem_cons.mp hend
      rw [List.cons_append, receive, receive]
      cases hkind : dispatch f.kind with
      | process => exact ih hrest _ _
      | truth =>
          simp only
          split
          · exact ih hrest _ _
          · exact ih hrest _ _
      | stop => exact absurd hkind hstop

/-- A campaign keeps the cadence. -/
theorem cadenceMs_receive (d : Dut) (truths : List GroundTruth)
    (arrivals : List (Clock × DuFrame)) :
    (receive d truths arrivals).1.cadenceMs = d.cadenceMs := by
  rw [receive_fst]
  induction processed arrivals generalizing d with
  | nil => rfl
  | cons x xs ih => rw [Dut.feed_cons, ih, Dut.process_eq]

/-- A sensor frame that is heard is handed to the device under test. -/
theorem receive_heard (d : Dut) (truths : List GroundTruth) {x : Clock × DuFrame}
    (hx : Dut.heard x.2 = true) (rest : List (Clock × DuFrame)) :
    receive d truths (x :: rest) = receive (d.process x.1 x.2) truths rest := by
  have hkind : dispatch x.2.kind = .process := by
    simp only [Dut.heard, Bool.and_eq_true, beq_iff_eq] at hx
    rw [hx.2]
    rfl
  obtain ⟨clock, f⟩ := x
  rw [receive, hkind]

/-- Without a frame nothing is received. -/
@[simp] theorem receive_nil (d : Dut) (truths : List GroundTruth) :
    receive d truths [] = (d, truths) := rfl

/-- Two campaigns record the same from a frame on: the one that comes late has recorded `late`
when the other one has recorded `early`, and in the end they have recorded `late'` and
`early'`. -/
def SameSince (early early' late late' : Dut × List GroundTruth) : Prop :=
  ∃ k dets ts,
    early'.1.detections = early.1.detections ++ dets ∧ early'.2 = early.2 ++ ts ∧
      late'.1.detections = late.1.detections ++ dets.map (Detection.later k) ∧
      late'.2 = late.2 ++ ts.map (GroundTruth.later k)

/-- **Two campaigns with a common end**: from the first sensor frame on that is heard in both,
they record the same. -/
theorem sameSince_heard (cadenceMs : UInt16) {early late rest : List (Clock × DuFrame)}
    {x : Clock × DuFrame} (hearly : ∀ y ∈ early, dispatch y.2.kind ≠ .stop)
    (hlate : ∀ y ∈ late, dispatch y.2.kind ≠ .stop) (hx : Dut.heard x.2 = true) :
    SameSince (receive (.new cadenceMs) [] (early ++ [x]))
      (receive (.new cadenceMs) [] (early ++ x :: rest))
      (receive (.new cadenceMs) [] (late ++ [x]))
      (receive (.new cadenceMs) [] (late ++ x :: rest)) := by
  have hcadence : (receive (.new cadenceMs) [] late).1.cadenceMs =
      (receive (.new cadenceMs) [] early).1.cadenceMs := by
    rw [cadenceMs_receive, cadenceMs_receive]
  obtain ⟨dets, ts, h⟩ := (Alike.of_heard hcadence x.1 hx).receive
    (receive (.new cadenceMs) [] early).2 (receive (.new cadenceMs) [] late).2 rest
  simp only [receive_append hearly, receive_append hlate, receive_heard _ _ hx, receive_nil]
  exact ⟨_, dets, ts, h⟩

/-! ### From the bytes on -/

/-- Frames as they arrive, each with the readings of the clock that it meets. -/
def stamp (clock : ℕ → Clock) (frames : List DuFrame) : List (Clock × DuFrame) :=
  frames.mapIdx fun i f => (clock i, f)

/-- After a stretch without sync bytes, a parser makes of a stream what a new one makes of it. -/
theorem run_after_quiet (u : List UInt8) {w : List UInt8} (hlen : maxFrame ≤ w.length)
    (hw : sync ∉ w) (v : List UInt8) :
    ∃ p q outs both, FrameParser.new.run (u ++ w ++ v) = some (p, outs ++ both) ∧
      FrameParser.new.run v = some (q, both) ∧ both = (feeds settle [] v).2 := by
  obtain ⟨p₁, hu, -, hready⟩ := FrameParser.push_simulates.run u FrameParser.ready_new
  obtain ⟨p₂, outs, hquiet, hready₂, hpending⟩ := hready.empty_of_no_sync hlen hw
  obtain ⟨p, hv, -, -⟩ := FrameParser.push_simulates.run v hready₂
  obtain ⟨q, hnew, -, -⟩ := FrameParser.push_simulates.run v FrameParser.ready_new
  rw [hpending] at hv
  refine ⟨p, q, (feeds settle FrameParser.new.pending u).2 ++ outs, _, ?_, hnew, rfl⟩
  simp only [FrameParser.run, run_append] at hu hquiet hv ⊢
  rw [hu, Option.bind_some, hquiet, Option.map_some, Option.bind_some, hv, Option.map_some]
  rfl

/-- **A host that comes late.** Two hosts have seen any bytes so far, then a stretch without sync
bytes that is as long as the buffer, and after it the same bytes, of which both parsers make what
a new parser makes. When the frames of these reach both at the same times, then from the first
sensor frame on that is heard in them, unless an END comes before it, both hosts record the same,
up to a constant that is added to the numbers of the frames. -/
theorem late_listener (cadenceMs : UInt16) (u u' : List UInt8) {w : List UInt8}
    (hlen : maxFrame ≤ w.length) (hw : sync ∉ w) (v : List UInt8) :
    ∃ p p' q outs outs' both,
      FrameParser.new.run (u ++ w ++ v) = some (p, outs ++ both) ∧
      FrameParser.new.run (u' ++ w ++ v) = some (p', outs' ++ both) ∧
      FrameParser.new.run v = some (q, both) ∧
      ∀ (clock clock' clockBoth : ℕ → Clock) (before rest : List (Clock × DuFrame))
        (x : Clock × DuFrame),
        let early := stamp clock (Pipe.images outs)
        let late := stamp clock' (Pipe.images outs')
        let common := stamp clockBoth (Pipe.images both)
        common = before ++ x :: rest → (∀ y ∈ early ++ late ++ before, dispatch y.2.kind ≠ .stop) →
        Dut.heard x.2 = true →
        SameSince (receive (.new cadenceMs) [] (early ++ before ++ [x]))
          (receive (.new cadenceMs) [] (early ++ common))
          (receive (.new cadenceMs) [] (late ++ before ++ [x]))
          (receive (.new cadenceMs) [] (late ++ common)) := by
  obtain ⟨p, q, outs, both, hrun, hnew, hboth⟩ := run_after_quiet u hlen hw v
  obtain ⟨p', q', outs', both', hrun', -, hboth'⟩ := run_after_quiet u' hlen hw v
  rw [hboth', ← hboth] at hrun'
  refine ⟨p, p', q, outs, outs', both, hrun, hrun', hnew, ?_⟩
  intro clock clock' clockBoth before rest x early late common hcommon hend hx
  rw [hcommon, ← List.append_assoc, ← List.append_assoc]
  refine sameSince_heard cadenceMs (fun y hy => hend y ?_) (fun y hy => hend y ?_) hx
  · rcases List.mem_append.mp hy with hy | hy
    · exact List.mem_append_left _ (List.mem_append_left _ hy)
    · exact List.mem_append_right _ hy
  · rcases List.mem_append.mp hy with hy | hy
    · exact List.mem_append_left _ (List.mem_append_right _ hy)
    · exact List.mem_append_right _ hy

/-- The bytes of a sensor frame that passes, up to its checksum. -/
def heardBytes : List UInt8 := [0x7E, 10, 0x80, 7, 0, 252, 0, 0, 0, 0, 0, 0, 0]

/-- One host has seen the beginning of a frame, the other one nothing; then both see silence, a
sensor frame that is heard, and a byte of garbage. -/
theorem noise_late_listener :
    ∃ outs outs' both x y,
      (FrameParser.new.run ([0x7E, 12] ++ List.replicate 20 0 ++ (heardBytes ++ [0]))).map
          Prod.snd = some (outs ++ both) ∧
      (FrameParser.new.run ([] ++ List.replicate 20 0 ++ (heardBytes ++ [0]))).map Prod.snd =
        some (outs' ++ both) ∧
      Pipe.images both = [x, y] ∧ Dut.heard x = true ∧
      let early := stamp (fun _ _ => ⟨0⟩) (Pipe.images outs)
      let late := stamp (fun _ _ => ⟨5⟩) (Pipe.images outs')
      SameSince (receive (.new 5) [] (early ++ [] ++ [(fun _ => ⟨9⟩, x)]))
        (receive (.new 5) [] (early ++ [(fun _ => ⟨9⟩, x), (fun _ => ⟨9⟩, y)]))
        (receive (.new 5) [] (late ++ [] ++ [(fun _ => ⟨9⟩, x)]))
        (receive (.new 5) [] (late ++ [(fun _ => ⟨9⟩, x), (fun _ => ⟨9⟩, y)])) := by
  obtain ⟨p, p', q, outs, outs', both, hrun, hrun', hnew, hsame⟩ :=
    late_listener 5 [0x7E, 12] [] (w := List.replicate 20 0) (by decide) (by decide)
      (heardBytes ++ [0])
  have hboth : (FrameParser.new.run (heardBytes ++ [0])).map (Pipe.images ∘ Prod.snd) =
      some [.ofDecoded (.frame 0x80 (zeroPadded (heardBytes.drop 3) (by decide)) 10 (by decide)),
        .ofDecoded .garbage] := by
    decide +kernel
  have hend : ∀ bs ∈ [[0x7E, 12] ++ List.replicate 20 0 ++ (heardBytes ++ [0]),
      [] ++ List.replicate 20 0 ++ (heardBytes ++ [0])],
      (FrameParser.new.run bs).map (fun r => (Pipe.images r.2).all fun f => f.kind ≠ kEnd) =
        some true := by
    decide +kernel
  have hopen : ∀ {os : List (Option Decoded)},
      (Pipe.images (os ++ both)).all (fun f => f.kind ≠ kEnd) = true →
      ∀ {clock : ℕ → Clock}, ∀ z ∈ stamp clock (Pipe.images os), dispatch z.2.kind ≠ .stop := by
    intro os hall clock z hz
    rw [Pipe.images_append, List.all_append, Bool.and_eq_true, List.all_eq_true] at hall
    obtain ⟨i, hi, rfl⟩ := List.mem_mapIdx.mp hz
    rw [Ne, dispatch_eq_stop]
    exact of_decide_eq_true (hall.1 _ (List.getElem_mem hi))
  rw [hnew] at hboth
  have hearly := hend _ (List.mem_cons_self ..)
  have hlate := hend _ (List.mem_cons_of_mem _ (List.mem_cons_self ..))
  rw [hrun] at hearly
  rw [hrun'] at hlate
  have himages := Option.some.inj hboth
  simp only [Function.comp_apply] at himages
  refine ⟨outs, outs', both, _, _, by rw [hrun]; rfl, by rw [hrun']; rfl, himages,
    by decide +kernel, ?_⟩
  have h := hsame (fun _ _ => ⟨0⟩) (fun _ _ => ⟨5⟩) (fun _ _ => ⟨9⟩) []
  simp only [himages] at h
  refine h _ _ rfl (fun z hz => ?_) (by decide +kernel)
  rw [List.append_nil] at hz
  rcases List.mem_append.mp hz with hz | hz
  · exact hopen (Option.some.inj hearly) z hz
  · exact hopen (Option.some.inj hlate) z hz

end FaultForge
