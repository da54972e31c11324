import Mathlib.Data.List.Chain
import FaultForge.Calibration
import FaultForge.Control

/-!
# The Sequence Check over Streams

What the device under test makes of a whole stream of frames (`Dut.feed`). Junk and
corrupted frames leave the sequence check alone, and the check compares a sensor frame
with the one heard before it only. So the gaps, replays and late arrivals of a stream are
those of neighbouring sensor frames (`anomalies`, `feed_anomalies`), whatever comes in
between.

The second half draws two consequences: a healthy stream records nothing, and a run of
corrupted frames is recorded under one and the same number, the one after the last frame
heard.

## Main results

* `feed_anomalies`: the anomalies of a stream are those of neighbouring sensor frames.
* `no_false_alarms`: a healthy link records nothing.
* `corrupted_run`: the numbers that a run of corrupted frames is recorded under.
-/

namespace FaultForge

/-! ### Streams through the device under test -/

namespace Dut

/-- Process a stream of frames. -/
def feed (d : Dut) (arrivals : List (Clock × DuFrame)) : Dut :=
  arrivals.foldl (fun d x => d.process x.1 x.2) d

/-- No frames change nothing. -/
@[simp] theorem feed_nil (d : Dut) : d.feed [] = d := rfl

/-- The first frame is processed first. -/
@[simp] theorem feed_cons (d : Dut) (x : Clock × DuFrame) (arrivals : List (Clock × DuFrame)) :
    d.feed (x :: arrivals) = (d.process x.1 x.2).feed arrivals := rfl

end Dut

/-- The frames that a campaign hands to the device under test. -/
def processed (frames : List (Clock × DuFrame)) : List (Clock × DuFrame) :=
  (received frames).filter fun x => dispatch x.2.kind = .process

/-- What a campaign does to the device under test is what the frames handed to it do. -/
theorem receive_fst (dut : Dut) (truths : List GroundTruth) (frames : List (Clock × DuFrame)) :
    (receive dut truths frames).1 = dut.feed (processed frames) := by
  induction frames generalizing dut truths with
  | nil => rfl
  | cons x frames ih =>
      obtain ⟨clock, f⟩ := x
      rw [receive, processed, received]
      cases h : dispatch f.kind with
      | process => simpa [h, processed] using ih (dut.process clock f) truths
      | truth =>
          simp only [h, reduceCtorEq, if_false, List.filter_cons, decide_false, Bool.false_eq_true]
          split <;> exact ih _ _
      | stop => simp [h]

/-- A campaign receives a prefix of what is delivered. -/
theorem received_isPrefix (frames : List (Clock × DuFrame)) : received frames <+: frames := by
  induction frames with
  | nil => exact List.prefix_rfl
  | cons x frames ih =>
      rw [received]
      split
      · exact ⟨frames, rfl⟩
      · exact List.prefix_cons_inj x |>.mpr ih

/-! ### The anomalies of a stream -/

/-- What the sequence check says of a sensor frame right behind another one. -/
def pairCheck (cadenceMs : UInt16) (x y : Clock × DuFrame) : Option DetKind :=
  let onTime := UInt64.ofNat ((y.1 1).millisSince (x.1 1)) < cadenceMs.toUInt64 * 4 + 5
  let expected := x.2.seq + 1
  if y.2.seq = expected then
    if ¬ onTime then some .late else none
  else if y.2.seq = x.2.seq then some .replay
  else if expected < y.2.seq then some .gap
  else some .replay

/-- The anomalies of a stream of sensor frames, by kind and number: each frame against the
one before it. -/
def anomalies (cadenceMs : UInt16) :
    Option (Clock × DuFrame) → List (Clock × DuFrame) → List (DetKind × UInt16)
  | _, [] => []
  | prev, y :: ys =>
      ((prev.bind (pairCheck cadenceMs · y)).map fun k => (k, y.2.seq)).toList ++
        anomalies cadenceMs (some y) ys

/-- Whether a detection comes from the sequence check. -/
def Detection.ofSequence (e : Detection) : Bool :=
  e.kind ≠ .crc && e.kind ≠ .burst

/-- The kind and the number of a detection. -/
def Detection.note (e : Detection) : DetKind × UInt16 :=
  (e.kind, e.seq)

/-- The sensor frame that the next one is compared with. -/
structure Baseline (d : Dut) (prev : Option (Clock × DuFrame)) : Prop where
  lastSeq : d.lastSeq = prev.map fun x => x.2.seq
  lastTime : d.lastTime = prev.map fun x => x.1 1

variable {d : Dut} {prev : Option (Clock × DuFrame)} {clock : Clock} {f : DuFrame}

/-- A new device under test has nothing to compare with. -/
theorem baseline_new (cadenceMs : UInt16) : Baseline (.new cadenceMs) none := ⟨rfl, rfl⟩

/-- The sequence check looks at the baseline only. -/
theorem Baseline.checkSeq (h : Baseline d prev) (clock : Clock) (f : DuFrame) :
    d.checkSeq f.seq (clock 1) = prev.bind (pairCheck d.cadenceMs · (clock, f)) := by
  cases prev with
  | none => simp [Dut.checkSeq, h.lastSeq]
  | some x =>
      simp only [Dut.checkSeq, h.lastSeq, h.lastTime, Option.map_some, Option.bind_some]
      rfl

/-- A frame that is heard becomes the baseline, any other leaves it alone. -/
theorem Baseline.process (h : Baseline d prev) :
    Baseline (d.process clock f) (if Dut.heard f then some (clock, f) else prev) := by
  rw [Dut.process_eq]
  split
  · exact ⟨rfl, rfl⟩
  · exact ⟨h.lastSeq, h.lastTime⟩

/-- **One frame** adds the anomaly of the sequence check, if it is a sensor frame, and
otherwise nothing that comes from the check. -/
theorem Baseline.note_process (h : Baseline d prev) :
    ((d.process clock f).detections.filter Detection.ofSequence).map Detection.note =
      (d.detections.filter Detection.ofSequence).map Detection.note ++
        if Dut.heard f then anomalies d.cadenceMs prev [(clock, f)] else [] := by
  have hburst : (d.burst clock f).toList.filter Detection.ofSequence = [] := by
    simp only [Dut.burst]
    split <;> simp [Detection.ofSequence]
  have hanomaly : (((d.anomaly clock f).toList.filter Detection.ofSequence).map Detection.note) =
      if Dut.heard f then anomalies d.cadenceMs prev [(clock, f)] else [] := by
    cases hg : f.garbage with
    | true => simp [Dut.anomaly, Dut.heard, hg]
    | false =>
        cases hc : f.badCrc with
        | true => simp [Dut.anomaly, Dut.heard, hg, hc, Detection.ofSequence]
        | false =>
            by_cases hk : f.kind = kSensor
            · have hcheck := h.checkSeq clock f
              simp only [Dut.anomaly, Dut.heard, hg, hc, hk, anomalies, ← hcheck]
              cases hs : d.checkSeq f.seq (clock 1) with
              | none => simp
              | some k => simp [Detection.ofSequence, Detection.note, Dut.checkSeq_ne hs]
            · simp [Dut.anomaly, Dut.heard, hg, hc, hk]
  rw [Dut.process_eq, List.filter_append, List.filter_append, List.map_append, List.map_append,
    hburst, hanomaly, List.map_nil, List.append_nil]

/-- **The anomalies of a stream** are those of neighbouring sensor frames. -/
theorem feed_anomalies (h : Baseline d prev) (arrivals : List (Clock × DuFrame)) :
    ((d.feed arrivals).detections.filter Detection.ofSequence).map Detection.note =
      (d.detections.filter Detection.ofSequence).map Detection.note ++
        anomalies d.cadenceMs prev (arrivals.filter fun x => Dut.heard x.2) := by
  induction arrivals generalizing d prev with
  | nil => simp [anomalies]
  | cons x arrivals ih =>
      obtain ⟨clock, f⟩ := x
      have hcadence : (d.process clock f).cadenceMs = d.cadenceMs := by rw [Dut.process_eq]
      rw [Dut.feed_cons, ih h.process, h.note_process, hcadence, List.append_assoc,
        List.filter_cons]
      by_cases hf : Dut.heard f = true
      · simp [hf, anomalies]
      · simp [hf]

/-- Verified frames on a line without junk are recorded by the sequence check only. -/
theorem ofSequence_of_mem_feed {arrivals : List (Clock × DuFrame)} (hjunk : d.junkRun = 0)
    (hall : ∀ x ∈ arrivals, x.2.Verified) (hd : ∀ e ∈ d.detections, e.ofSequence = true) :
    ∀ e ∈ (d.feed arrivals).detections, e.ofSequence = true := by
  induction arrivals generalizing d with
  | nil => exact hd
  | cons x arrivals ih =>
      obtain ⟨clock, f⟩ := x
      obtain ⟨hcrc, hgarbage⟩ : f.badCrc = false ∧ f.garbage = false :=
        hall _ (List.mem_cons_self ..)
      refine ih ?_ (fun y hy => hall y (List.mem_cons_of_mem _ hy)) ?_
      · simp [Dut.process_eq, hgarbage]
      · have hquiet := Dut.not_one_le_junkRun hjunk
        intro e he
        simp only [Dut.process_eq, Dut.burst, Dut.anomaly, hcrc, hgarbage, hquiet, false_and,
          and_false, if_false, Option.toList_none, List.append_nil, List.mem_append,
          Option.mem_toList, Bool.false_eq_true] at he
        rcases he with he | he
        · exact hd e he
        · split at he
          · simp at he
          · obtain ⟨k, hk, rfl⟩ := Option.map_eq_some_iff.mp he
            simp [Detection.ofSequence, Dut.checkSeq_ne hk]

/-- **All that a new device records** of a stream of verified frames are the anomalies of
neighbouring sensor frames. -/
theorem note_feed_new (cadenceMs : UInt16) {arrivals : List (Clock × DuFrame)}
    (hall : ∀ x ∈ arrivals, x.2.Verified) :
    ((Dut.new cadenceMs).feed arrivals).detections.map Detection.note =
      anomalies cadenceMs none (arrivals.filter fun x => Dut.heard x.2) := by
  have hchecked := ofSequence_of_mem_feed (d := .new cadenceMs) rfl hall (by simp [Dut.new])
  have hfeed := feed_anomalies (baseline_new cadenceMs) arrivals
  rw [List.filter_eq_self.mpr hchecked] at hfeed
  exact hfeed

/-- The same of a stream of sensor frames. -/
theorem note_feed_heard (cadenceMs : UInt16) {arrivals : List (Clock × DuFrame)}
    (hheard : ∀ x ∈ arrivals, Dut.heard x.2 = true) :
    ((Dut.new cadenceMs).feed arrivals).detections.map Detection.note =
      anomalies cadenceMs none arrivals := by
  have hverified : ∀ x ∈ arrivals, x.2.Verified := fun x hx => by
    have h := hheard x hx
    simp only [Dut.heard, Bool.and_eq_true, Bool.not_eq_true'] at h
    exact ⟨h.1.2, h.1.1⟩
  rw [note_feed_new cadenceMs hverified, List.filter_eq_self.mpr hheard]

/-! ### Healthy links -/

/-- The late budget in milliseconds does not overflow. -/
theorem lt_lateBudget_iff (cadenceMs : UInt16) {ms : ℕ} (h : ms < 2 ^ 64) :
    UInt64.ofNat ms < cadenceMs.toUInt64 * 4 + 5 ↔ ms < 4 * cadenceMs.toNat + 5 := by
  have hcad := cadenceMs.toNat_lt
  rw [UInt64.lt_iff_toNat_lt, UInt64.toNat_ofNat_of_lt' h]
  have hbudget : (cadenceMs.toUInt64 * 4 + 5).toNat = 4 * cadenceMs.toNat + 5 := by
    simp
    omega
  rw [hbudget]

/-- A stream has no anomalies if no frame has one against the frame before it. -/
theorem anomalies_eq_nil {cadenceMs : UInt16} {ys : List (Clock × DuFrame)}
    (h : ys.IsChain fun x y => pairCheck cadenceMs x y = none) :
    ∀ prev : Option (Clock × DuFrame),
      (∀ x ∈ prev, ∀ y ∈ ys.head?, pairCheck cadenceMs x y = none) →
        anomalies cadenceMs prev ys = [] := by
  induction ys with
  | nil => exact fun _ _ => rfl
  | cons y ys ih =>
      intro prev hprev
      have hnone : prev.bind (pairCheck cadenceMs · y) = none := by
        cases prev with
        | none => rfl
        | some x => exact hprev x rfl y rfl
      obtain ⟨hnext, hrest⟩ := List.isChain_cons.mp h
      rw [anomalies, hnone, ih hrest (some y) fun x hx z hz => by
        obtain rfl := Option.mem_some_iff.mp hx
        exact hnext z hz]
      rfl

/-- A frame arrives within the late budget of the one before it. -/
def OnTime (cadenceMs : UInt16) (x y : Clock × DuFrame) : Prop :=
  (y.1 1).millisSince (x.1 1) < 4 * cadenceMs.toNat + 5

instance (cadenceMs : UInt16) (x y : Clock × DuFrame) : Decidable (OnTime cadenceMs x y) :=
  inferInstanceAs (Decidable (_ < _))

/-- **A healthy link**: all frames are verified, the sensor frames count up by one, across
the wrap as well, and each arrives within the late budget of the one before it. -/
structure Healthy (cadenceMs : UInt16) (arrivals : List (Clock × DuFrame)) : Prop where
  verified : ∀ x ∈ arrivals, x.2.Verified
  next : (arrivals.filter fun x => x.2.kind = kSensor).IsChain fun x y =>
    y.2.seq = x.2.seq + 1 ∧ OnTime cadenceMs x y

/-- The sensor frames that the device hears in a campaign are the first ones delivered. -/
theorem heard_processed_isPrefix (arrivals : List (Clock × DuFrame)) :
    ((processed arrivals).filter fun x => Dut.heard x.2) <+:
      arrivals.filter fun x => Dut.heard x.2 := by
  have hheard : ((processed arrivals).filter fun x => Dut.heard x.2) =
      (received arrivals).filter fun x => Dut.heard x.2 := by
    rw [processed, List.filter_filter]
    refine List.filter_congr fun x _ => ?_
    by_cases hk : x.2.kind = kSensor
    · simp [hk, dispatch]
    · simp [Dut.heard, hk]
  rw [hheard]
  exact (received_isPrefix arrivals).filter _

/-- Right behind another frame, the next number within the late budget is no anomaly. -/
theorem pairCheck_eq_none {cadenceMs : UInt16} {x y : Clock × DuFrame}
    (hseq : y.2.seq = x.2.seq + 1) (htime : OnTime cadenceMs x y) :
    pairCheck cadenceMs x y = none := by
  have hcad := cadenceMs.toNat_lt
  have honTime := (lt_lateBudget_iff cadenceMs (by rw [OnTime] at htime; omega)).mpr htime
  simp [pairCheck, hseq, honTime]

/-- **No false alarms**: a campaign on a healthy link records nothing, whichever frames of
other kinds come between the sensor frames. -/
theorem no_false_alarms {cadenceMs : UInt16} {arrivals : List (Clock × DuFrame)}
    (h : Healthy cadenceMs arrivals) :
    (receive (.new cadenceMs) [] arrivals).1.detections = [] := by
  have hverified : ∀ x ∈ processed arrivals, x.2.Verified := fun x hx =>
    h.verified x ((received_isPrefix arrivals).subset (List.mem_of_mem_filter hx))
  have hsensors : (arrivals.filter fun x => Dut.heard x.2) =
      arrivals.filter fun x => x.2.kind = kSensor := by
    refine List.filter_congr fun x hx => ?_
    obtain ⟨hcrc, hgarbage⟩ := h.verified x hx
    simp only [Dut.heard, hcrc, hgarbage, Bool.not_false, Bool.true_and]
    rfl
  have hprefix := hsensors ▸ heard_processed_isPrefix arrivals
  have hquiet : ((processed arrivals).filter fun x => Dut.heard x.2).IsChain
      fun x y => pairCheck cadenceMs x y = none := by
    refine List.IsChain.imp ?_ <| List.IsChain.prefix h.next hprefix
    rintro x y ⟨hseq, htime⟩
    exact pairCheck_eq_none hseq htime
  have hnotes := note_feed_new cadenceMs hverified
  rw [anomalies_eq_nil hquiet none (by simp), List.map_eq_nil_iff] at hnotes
  rw [receive_fst, hnotes]

/-- A sensor frame that arrives at a time in milliseconds. -/
def sensorAt (ms : ℕ) (seq : UInt16) : Clock × DuFrame :=
  (fun _ => ⟨ms * 1000000⟩, sensorFrame seq 0 0)

/-- A healthy stream across the wrap, with an announcement and a PONG in it. -/
theorem wrapping_stream_no_false_alarms :
    (receive (.new 5) []
      [sensorAt 0 65534, (fun _ => ⟨0⟩, correctFrame kPong [] (by decide)), sensorAt 24 65535,
        (fun _ => ⟨0⟩, faultFrame 1 faultDrop 3), sensorAt 48 0, sensorAt 50 1]).1.detections =
      [] :=
  no_false_alarms ⟨by decide +kernel, by decide +kernel⟩

/-! ### Runs of corrupted frames -/

/-- A frame that fails its CRC check. -/
def DuFrame.Corrupted (f : DuFrame) : Prop :=
  f.badCrc = true ∧ f.garbage = false

instance (f : DuFrame) : Decidable f.Corrupted :=
  inferInstanceAs (Decidable (_ ∧ _))

/-- The CRC failures that a stream adds to the detections. -/
def crcFailures (d : Dut) (arrivals : List (Clock × DuFrame)) : List Detection :=
  ((d.feed arrivals).detections.drop d.detections.length).filter fun e => e.kind = .crc

variable {arrivals : List (Clock × DuFrame)}

/-- A corrupted frame adds one CRC failure and leaves the last number heard alone. -/
theorem Dut.process_corrupted (d : Dut) (clock : Clock) {f : DuFrame} (hf : f.Corrupted) :
    ∃ new, (d.process clock f).detections = d.detections ++ new ∧
      (new.filter fun e => e.kind = .crc).map Detection.seq = [d.nextSeq] ∧
      (d.process clock f).lastSeq = d.lastSeq := by
  obtain ⟨hcrc, hgarbage⟩ := hf
  refine ⟨(d.burst clock f).toList ++ (d.anomaly clock f).toList, ?_, ?_, ?_⟩
  · rw [process_eq, List.append_assoc]
  · have hburst : (d.burst clock f).toList.filter (fun e => e.kind = .crc) = [] := by
      simp only [burst]
      split <;> simp
    simp [List.filter_append, hburst, anomaly, hcrc, hgarbage]
  · simp [process_eq, heard, hcrc]

/-- **All corrupted frames of a run are recorded under one number**, the one after the last
frame heard. -/
theorem seq_crcFailures (hcorrupt : ∀ x ∈ arrivals, x.2.Corrupted) :
    (crcFailures d arrivals).map Detection.seq = List.replicate arrivals.length d.nextSeq := by
  have hfeed : ∃ new, (d.feed arrivals).detections = d.detections ++ new ∧
      (new.filter fun e => e.kind = .crc).map Detection.seq =
        List.replicate arrivals.length d.nextSeq := by
    induction arrivals generalizing d with
    | nil => exact ⟨[], by simp⟩
    | cons x arrivals ih =>
        obtain ⟨new, hnew, hseq, hlast⟩ :=
          d.process_corrupted x.1 (hcorrupt x (List.mem_cons_self ..))
        obtain ⟨rest, hrest, hseqs⟩ := ih (d := d.process x.1 x.2)
          fun y hy => hcorrupt y (List.mem_cons_of_mem _ hy)
        refine ⟨new ++ rest, by rw [Dut.feed_cons, hrest, hnew, List.append_assoc], ?_⟩
        have hnext : (d.process x.1 x.2).nextSeq = d.nextSeq := by rw [Dut.nextSeq, hlast]; rfl
        rw [List.filter_append, List.map_append, hseq, hseqs, hnext]
        rfl
  obtain ⟨new, hnew, hseqs⟩ := hfeed
  rw [crcFailures, hnew, List.drop_left, hseqs]

/-- The `i`-th CRC failure of a run lies in the scorer's window around the slot that its
frame comes from, the slot number `i` after `last`. -/
def InWindow (last : UInt16) (ds : List Detection) (i : ℕ) : Prop :=
  ∃ e, ds[i]? = some e ∧ dseqDiff e.seq (last + 1 + UInt16.ofNat i) ≤ 2

/-- Being `i` apart on the circle means to be within two of it in one of the directions. -/
theorem dseqDiff_add_le_two_iff (a : UInt16) (i : ℕ) :
    dseqDiff a (a + UInt16.ofNat i) ≤ 2 ↔ i % 2 ^ 16 ≤ 2 ∨ 2 ^ 16 - 2 ≤ i % 2 ^ 16 := by
  have ha : a.toNat < 2 ^ 16 := a.toNat_lt
  rw [UInt32.le_iff_toNat_le, toNat_dseqDiff, circularDist]
  simp only [UInt16.toNat_sub, UInt16.toNat_add, UInt16.toNat_ofNat']
  have htwo : (2 : UInt32).toNat = 2 := rfl
  omega

/-- **Runs of corrupted frames.** After the last frame heard, every corrupted frame of a run
is recorded as one CRC failure, and all of them under the number after that frame. So the
scorer's window covers the slots of the first three frames, and then not until the numbers
come round again; it covers the slots of all frames iff there are at most three. -/
theorem corrupted_run {last : UInt16} (hlast : d.lastSeq = some last)
    (hcorrupt : ∀ x ∈ arrivals, x.2.Corrupted) :
    (crcFailures d arrivals).map Detection.seq = List.replicate arrivals.length (last + 1) ∧
    (∀ i < arrivals.length, InWindow last (crcFailures d arrivals) i ↔
      i % 2 ^ 16 ≤ 2 ∨ 2 ^ 16 - 2 ≤ i % 2 ^ 16) ∧
    ((∀ i < arrivals.length, InWindow last (crcFailures d arrivals) i) ↔
      arrivals.length ≤ 3) := by
  have hseqs : (crcFailures d arrivals).map Detection.seq =
      List.replicate arrivals.length (last + 1) := by
    rw [seq_crcFailures hcorrupt, Dut.nextSeq, hlast]
    rfl
  have hslot : ∀ i < arrivals.length, InWindow last (crcFailures d arrivals) i ↔
      i % 2 ^ 16 ≤ 2 ∨ 2 ^ 16 - 2 ≤ i % 2 ^ 16 := by
    intro i hi
    have hget := congrArg (fun l : List UInt16 => l[i]?) hseqs
    simp only [List.getElem?_map, List.getElem?_replicate, hi, if_true,
      Option.map_eq_some_iff] at hget
    obtain ⟨e, he, hseq⟩ := hget
    simp only [InWindow, he, Option.some.injEq, exists_eq_left', hseq]
    exact dseqDiff_add_le_two_iff (last + 1) i
  refine ⟨hseqs, hslot, fun h => ?_, fun h i hi => (hslot i hi).mpr (by omega)⟩
  by_contra hlen
  have hfourth := (hslot 3 (by omega)).mp (h 3 (by omega))
  omega

/-- A corrupted frame, whatever its kind byte. -/
def corruptedAt (ms : ℕ) (kind : UInt8) : Clock × DuFrame :=
  (fun _ => ⟨ms * 1000000⟩, .ofDecoded (.badCrc kind))

/-- Corrupted frames in a row, one every 5 ms. -/
def corruptedFrames (n : ℕ) : List (Clock × DuFrame) :=
  (List.range n).map fun i => corruptedAt (5 * (i + 1)) kSensor

/-- Three corrupted frames after the frame of slot 10. -/
theorem three_corrupted_inWindow :
    ((crcFailures ((Dut.new 5).feed [sensorAt 0 10]) (corruptedFrames 3)).map Detection.seq =
      [11, 11, 11]) ∧
    ∀ i < 3, InWindow 10 (crcFailures ((Dut.new 5).feed [sensorAt 0 10]) (corruptedFrames 3))
      i := by
  have hlast : ((Dut.new 5).feed [sensorAt 0 10]).lastSeq = some 10 := by decide +kernel
  have hcorrupt : ∀ x ∈ corruptedFrames 3, x.2.Corrupted := by decide +kernel
  obtain ⟨hseqs, -, hall⟩ := corrupted_run hlast hcorrupt
  exact ⟨hseqs, hall.mpr (by decide)⟩

/-- Not every run of corrupted frames is recorded for the slots it comes from: the fourth
frame after slot 10 is not. -/
theorem fourth_corrupted_not_inWindow :
    ¬ ∀ (d : Dut) (last : UInt16) (arrivals : List (Clock × DuFrame)),
      d.lastSeq = some last → (∀ x ∈ arrivals, x.2.Corrupted) →
        ∀ i < arrivals.length, InWindow last (crcFailures d arrivals) i := by
  intro h
  obtain ⟨e, he, hwindow⟩ := h ((Dut.new 5).feed [sensorAt 0 10]) 10 (corruptedFrames 4)
    (by decide +kernel) (by decide +kernel) 3 (by decide)
  have hfourth : (crcFailures ((Dut.new 5).feed [sensorAt 0 10]) (corruptedFrames 4))[3]?.map
      Detection.seq = some 11 := by decide +kernel
  rw [he, Option.map_some, Option.some.injEq] at hfourth
  rw [hfourth] at hwindow
  exact absurd hwindow (by decide)

end FaultForge
