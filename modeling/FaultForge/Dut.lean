import FaultForge.Parser

/-!
# The Device under Test

The host is the device under test: `Dut` validates the measurement stream and records a
detection for every anomaly it sees, namely CRC failures, sequence gaps, duplicate frames,
late arrivals and bursts of junk.

A `DuFrame` is an outcome of the parser in the shape the host passes around. `process`
takes the readings of the clock as an argument, one for each place of its body that calls
`Instant::now()`. Its counters wrap.

## Main results

* `process_eq`: what `process` does to every field of the state.
* `process_sensor`: what it does to a valid sensor frame when no junk is pending.
* `countKind_crc_process`: `process` records a CRC failure exactly for a corrupted frame.
-/

namespace FaultForge

/-! ### Time -/

/-- A reading of the monotonic clock, in nanoseconds since its origin. -/
structure Instant where
  nanos : ℕ
deriving DecidableEq

/-- `duration_since(earlier).as_millis()`: whole milliseconds, and zero when `earlier` is
the later of the two. -/
def Instant.millisSince (t earlier : Instant) : ℕ :=
  (t.nanos - earlier.nanos) / 1000000

/-- The readings of `Instant::now()` during one call: reading `k` is taken at the `k`-th
place of the body that takes one. -/
abbrev Clock := ℕ → Instant

/-! ### Frames and detections -/

/-- A frame produced by the shared streaming parser. -/
@[ext]
structure DuFrame where
  kind : UInt8
  payload : Bytes maxPayload
  len : ℕ
  badCrc : Bool
  garbage : Bool
  fits : len ≤ maxPayload

instance : DecidableEq DuFrame :=
  fun _ _ => decidable_of_iff' _ DuFrame.ext_iff

namespace DuFrame

/-- The frame that stands for an outcome of the parser. A bad CRC keeps the kind byte,
which nothing vouches for. -/
def ofDecoded : Decoded → DuFrame
  | .frame kind payload len fits =>
      { kind, payload, len, badCrc := false, garbage := false, fits }
  | .badCrc kind =>
      { kind, payload := List.Vector.replicate maxPayload 0, len := 0, badCrc := true,
        garbage := false, fits := Nat.zero_le _ }
  | .garbage =>
      { kind := 0xFF, payload := List.Vector.replicate maxPayload 0, len := 0,
        badCrc := false, garbage := true, fits := Nat.zero_le _ }

/-- The sequence number that a sensor frame carries. -/
def seq (f : DuFrame) : UInt16 :=
  getU16 f.payload.toList 0 (by rw [f.payload.toList_length]; decide)

end DuFrame

/-- What the device under test can detect. -/
inductive DetKind where
  /-- A frame failed its CRC check. -/
  | crc
  /-- Missing sequence numbers between two good frames. -/
  | gap
  /-- A sequence number appeared twice. -/
  | replay
  /-- A frame arrived later than the cadence budget allows. -/
  | late
  /-- A run of unparseable bytes between frames. -/
  | burst
deriving DecidableEq

/-- The name of a detection in the report. -/
def DetKind.asStr : DetKind → String
  | crc => "crc"
  | gap => "gap"
  | replay => "replay"
  | late => "late"
  | burst => "burst"

/-- A detection, with the number and the time of the frame that it was made on. -/
structure Detection where
  kind : DetKind
  seq : UInt16
  atTime : Instant
  frameIdx : UInt64
deriving DecidableEq

/-- How many detections of a kind there are. -/
def countKind (k : DetKind) (ds : List Detection) : ℕ :=
  ds.countP fun d => d.kind = k

/-- Counts add up. -/
@[simp] theorem countKind_append (k : DetKind) (ds ds' : List Detection) :
    countKind k (ds ++ ds') = countKind k ds + countKind k ds' :=
  List.countP_append

/-! ### The state machine -/

/-- The device under test: its state between two frames, and what it has detected. -/
structure Dut where
  cadenceMs : UInt16
  lastSeq : Option UInt16
  lastTime : Option Instant
  junkRun : UInt32
  burstFlagged : Bool
  frameIdx : UInt64
  detections : List Detection
deriving DecidableEq

namespace Dut

/-- A device that has heard nothing yet. -/
def new (cadenceMs : UInt16) : Dut where
  cadenceMs := cadenceMs
  lastSeq := none
  lastTime := none
  junkRun := 0
  burstFlagged := false
  frameIdx := 0
  detections := []

/-- Note a detection at the current frame. -/
def record (d : Dut) (kind : DetKind) (seq : UInt16) (now : Instant) : Dut :=
  { d with detections := d.detections ++ [⟨kind, seq, now, d.frameIdx⟩] }

/-- Late budget: a frame this far outside the normal spacing is suspicious. -/
def lateBudgetMs (d : Dut) : UInt64 :=
  d.cadenceMs.toUInt64 * 4 + 5

/-- The sequence number that a damaged frame is filed under. -/
def guessSeq (_d : Dut) (seq : UInt16) : UInt16 := seq

/-- The sequence number after the last one heard, `last_seq.map(wrapping_add 1).unwrap_or(0)`. -/
def nextSeq (d : Dut) : UInt16 :=
  (d.lastSeq.map (· + 1)).getD 0

/-- A burst of junk then a real frame: coalesce into a single Burst detection. -/
def closeBurst (d : Dut) (now : Instant) : Dut :=
  if 1 ≤ d.junkRun then
    let d := { d with junkRun := 0 }
    if d.burstFlagged = false then
      ({ d with burstFlagged := true } : Dut).record .burst d.nextSeq now
    else d
  else d

/-- The sequence check: the anomaly, if any, of a sensor frame after the last one heard.
Before the first frame there is nothing to compare with. -/
def checkSeq (d : Dut) (seq : UInt16) (now : Instant) : Option DetKind :=
  match d.lastSeq, d.lastTime with
  | some last, some lt =>
      let onTime := UInt64.ofNat (now.millisSince lt) < d.lateBudgetMs
      let expected := last + 1
      if seq = expected then
        if ¬ onTime then some .late else none
      else if seq = last then some .replay
      else if expected < seq then some .gap
      -- arrived out of order (older than last) but not a duplicate
      else some .replay
  | _, _ => none

/-- One frame: a run of garbage before it is closed, then the frame itself is checked. -/
def process (d : Dut) (clock : Clock) (f : DuFrame) : Dut :=
  let d := { d with frameIdx := d.frameIdx + 1 }
  if f.garbage then { d with junkRun := d.junkRun + 1, burstFlagged := false }
  else
    let d := d.closeBurst (clock 0)
    if f.badCrc then d.record .crc (d.guessSeq d.nextSeq) (clock 1)
    else if f.kind ≠ kSensor then d
    else
      let now := clock 1
      let d' := match d.checkSeq f.seq now with
        | some k => d.record k f.seq (clock 2)
        | none => d
      { d' with lastSeq := some f.seq, lastTime := some now }

/-! ### What one call does -/

/-- The Burst detection that a frame closes, if any. -/
def burst (d : Dut) (clock : Clock) (f : DuFrame) : Option Detection :=
  if f.garbage = false ∧ 1 ≤ d.junkRun ∧ d.burstFlagged = false then
    some ⟨.burst, d.nextSeq, clock 0, d.frameIdx + 1⟩
  else none

/-- The detection that a frame itself gives rise to, if any. -/
def anomaly (d : Dut) (clock : Clock) (f : DuFrame) : Option Detection :=
  if f.garbage then none
  else if f.badCrc then some ⟨.crc, d.nextSeq, clock 1, d.frameIdx + 1⟩
  else if f.kind ≠ kSensor then none
  else (d.checkSeq f.seq (clock 1)).map (⟨·, f.seq, clock 2, d.frameIdx + 1⟩)

/-- Whether the frame is a sensor frame that passed all checks of its bytes. -/
def heard (f : DuFrame) : Bool :=
  !f.garbage && !f.badCrc && f.kind == kSensor

variable {d : Dut} {clock : Clock} {f : DuFrame}

/-- Without junk, none is pending. -/
theorem not_one_le_junkRun (hjunk : d.junkRun = 0) : ¬ 1 ≤ d.junkRun := by
  rw [hjunk]
  decide

/-- A frame closes the run of garbage, and records it if there was any. -/
theorem closeBurst_eq (now : Instant) :
    d.closeBurst now =
      { d with
        junkRun := 0
        burstFlagged := d.burstFlagged || decide (1 ≤ d.junkRun)
        detections := d.detections ++
          if 1 ≤ d.junkRun ∧ d.burstFlagged = false then
            [⟨.burst, d.nextSeq, now, d.frameIdx⟩]
          else [] } := by
  obtain ⟨cadence, lastSeq, lastTime, junkRun, flagged, idx, dets⟩ := d
  by_cases hj : 1 ≤ junkRun
  · cases flagged <;> simp [closeBurst, hj, record, nextSeq]
  · have hzero : junkRun = 0 := by
      rw [UInt32.le_iff_toNat_le] at hj
      exact UInt32.toNat_inj.mp (by simp at hj ⊢; omega)
    simp [closeBurst, hzero]

/-- **What one call of `process` does**: it counts the frame, records the burst that the
frame closes and the anomaly of the frame, in this order, and remembers a sensor frame
that it could hear. -/
theorem process_eq (d : Dut) (clock : Clock) (f : DuFrame) :
    d.process clock f =
      { cadenceMs := d.cadenceMs
        lastSeq := if heard f then some f.seq else d.lastSeq
        lastTime := if heard f then some (clock 1) else d.lastTime
        junkRun := if f.garbage then d.junkRun + 1 else 0
        burstFlagged := !f.garbage && (d.burstFlagged || decide (1 ≤ d.junkRun))
        frameIdx := d.frameIdx + 1
        detections :=
          d.detections ++ (d.burst clock f).toList ++ (d.anomaly clock f).toList } := by
  cases hg : f.garbage with
  | true => simp [process, hg, burst, anomaly, heard]
  | false =>
      have hburst : (d.burst clock f).toList =
          if 1 ≤ d.junkRun ∧ d.burstFlagged = false then
            [⟨.burst, d.nextSeq, clock 0, d.frameIdx + 1⟩] else [] := by
        simp only [burst, hg, true_and]
        split <;> rfl
      simp only [process, hg, closeBurst_eq, hburst]
      cases hc : f.badCrc with
      | true => simp [heard, hg, hc, anomaly, record, guessSeq, nextSeq]
      | false =>
          by_cases hk : f.kind = kSensor
          · -- the check reads neither the counters nor the detections
            have hcheck : ∀ idx junk flagged dets,
                ({ d with frameIdx := idx, junkRun := junk, burstFlagged := flagged,
                          detections := dets } : Dut).checkSeq f.seq (clock 1) =
                  d.checkSeq f.seq (clock 1) := fun _ _ _ _ => rfl
            cases h : d.checkSeq f.seq (clock 1) <;>
              simp [heard, hg, hc, hk, anomaly, nextSeq, hcheck, h, record]
          · simp [heard, hg, hc, hk, anomaly, nextSeq]

/-- The sequence check never reports a CRC failure or a burst. -/
theorem checkSeq_ne {seq : UInt16} {now : Instant} {k : DetKind}
    (h : d.checkSeq seq now = some k) : k ≠ .crc ∧ k ≠ .burst := by
  simp only [checkSeq] at h
  split at h
  · repeat' split at h
    all_goals simp at h
    all_goals simp [← h]
  · simp at h

/-- **A corrupted frame, and nothing else, is recorded as a CRC failure.** -/
theorem countKind_crc_process (d : Dut) (clock : Clock) (f : DuFrame) :
    countKind .crc (d.process clock f).detections =
      countKind .crc d.detections + if f.badCrc && !f.garbage then 1 else 0 := by
  have hburst : countKind .crc (d.burst clock f).toList = 0 := by
    simp only [burst]
    split <;> simp [countKind]
  have hanomaly : countKind .crc (d.anomaly clock f).toList =
      if f.badCrc && !f.garbage then 1 else 0 := by
    cases hg : f.garbage with
    | true => simp [anomaly, hg, countKind]
    | false =>
        cases hc : f.badCrc with
        | true => simp [anomaly, hg, hc, countKind]
        | false =>
            by_cases hk : f.kind = kSensor
            · cases h : d.checkSeq f.seq (clock 1) with
              | none => simp [anomaly, hg, hc, hk, h, countKind]
              | some k => simp [anomaly, hg, hc, hk, h, countKind, (checkSeq_ne h).1]
            · simp [anomaly, hg, hc, hk, countKind]
  rw [process_eq]
  simp only [countKind_append, hburst, hanomaly, Nat.add_zero]

/-- **A valid sensor frame** on a line without junk: the sequence check decides what is
recorded, and the frame becomes the last one heard. -/
theorem process_sensor (hjunk : d.junkRun = 0) (hf : heard f = true) :
    d.process clock f =
      { d with
        lastSeq := some f.seq
        lastTime := some (clock 1)
        frameIdx := d.frameIdx + 1
        detections := d.detections ++ ((d.checkSeq f.seq (clock 1)).map fun k =>
          (⟨k, f.seq, clock 2, d.frameIdx + 1⟩ : Detection)).toList } := by
  have hquiet := not_one_le_junkRun hjunk
  have hparts : f.garbage = false ∧ f.badCrc = false ∧ f.kind = kSensor := by
    simpa [heard, and_assoc] using hf
  obtain ⟨hg, hc, hk⟩ := hparts
  rw [process_eq]
  simp [hf, hg, hc, hk, hjunk, burst, anomaly]

end Dut

/-! ### Ground truth -/

/-- What the injector says it injected, so the host can score its own detections. -/
structure GroundTruth where
  faultId : UInt32
  kind : UInt8
  atSeq : UInt16
  frameIdx : UInt64
  atTime : Instant
deriving DecidableEq

/-- Read a FAULT payload; a payload that is too short is refused. -/
def GroundTruth.fromPayload (p : List UInt8) (frameIdx : UInt64) (now : Instant) :
    Option GroundTruth :=
  if h : p.length < faultPayloadLen then none
  else
    have h : 7 ≤ p.length := Nat.le_of_not_lt h
    some
      { faultId := getU32 p 0 (by omega)
        kind := p[4]
        atSeq := getU16 p 5 (by omega)
        frameIdx
        atTime := now }

end FaultForge
