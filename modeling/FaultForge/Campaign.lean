import FaultForge.Dut

/-!
# Campaigns

A campaign on the host: the loop that drains the frame channel into the device under test
and the list of ground truths (`receive`), the greedy matching of injections with
detections (`matchLoop`), and the aggregation of the matches into a result (`score`).

`matchLoop` keeps, with each detection it pairs, the position at which its scan stopped,
which the source forgets once the cursor is set. The average latency is a floating-point
quotient; the result carries its numerator.

## Main results

* `foldl_add_counters`: the counters of the aggregation are exact as long as they do not
  wrap.
-/

namespace FaultForge

/-! ### Options and profiles -/

/-- The options of the command line. -/
structure Opts where
  simulated : Bool
  seed : UInt32
  packets : UInt16
  cadenceMs : UInt16
  profile : String
  quiet : Bool
deriving DecidableEq

/-- Weight vectors per profile, indexed BITFLIP to DUTY. -/
def profileWeights (name : String) : Bytes nFaultKinds :=
  if name = "clean" then ⟨[0, 0, 0, 0, 0, 0, 0], rfl⟩
  else if name = "fuzz" then ⟨[8, 8, 8, 8, 8, 8, 0], rfl⟩
  else if name = "emi" then ⟨[30, 15, 0, 5, 10, 25, 0], rfl⟩
  else if name = "stress" then ⟨[5, 5, 40, 30, 15, 5, 0], rfl⟩
  else if name = "delay" then ⟨[0, 0, 0, 100, 0, 0, 0], rfl⟩
  else ⟨[8, 8, 8, 8, 8, 8, 0], rfl⟩

/-- The configuration that `run` sends in its START frame. -/
def Opts.config (opts : Opts) : CampaignConfig where
  seed := opts.seed
  packets := opts.packets
  cadenceMs := opts.cadenceMs
  weights := profileWeights opts.profile

/-! ### Draining the frame channel -/

/-- What the loop of `run` does with a frame. -/
inductive Arm where
  /-- Hand it to the device under test. -/
  | process
  /-- Read a ground truth from it. -/
  | truth
  /-- End the campaign. -/
  | stop
deriving DecidableEq

/-- The `match` of the loop on the kind of a frame. -/
def dispatch (kind : UInt8) : Arm :=
  if kind = kSensor then .process
  else if kind = kFault then .truth
  else if kind = kEnd then .stop
  else .process

/-- The device under test gets the frames of every kind other than FAULT and END. -/
theorem dispatch_eq_process {kind : UInt8} :
    dispatch kind = .process ↔ kind ≠ kFault ∧ kind ≠ kEnd := by
  simp only [dispatch]
  split
  · next h => subst h; decide
  · split
    · next h => simp [h]
    · split
      · next h => simp [h]
      · next hf he => simp [hf, he]

/-- Only the kind of END ends the loop, whether the frame is verified or not. -/
theorem dispatch_eq_stop {kind : UInt8} : dispatch kind = .stop ↔ kind = kEnd := by
  simp only [dispatch]
  split
  · next h => subst h; decide
  · split
    · next h => subst h; decide
    · split
      · next h => simp [h]
      · next he => simp [he]

/-- Only the kind of FAULT announces a truth. -/
theorem dispatch_eq_truth {kind : UInt8} : dispatch kind = .truth ↔ kind = kFault := by
  simp only [dispatch]
  split
  · next h => subst h; decide
  · split
    · next h => simp [h]
    · next h => split <;> simp [h]

/-- Drain frames until the injector says the campaign is over, or the channel closes. -/
def receive : Dut → List GroundTruth → List (Clock × DuFrame) → Dut × List GroundTruth
  | dut, truths, [] => (dut, truths)
  | dut, truths, (clock, f) :: fs =>
      match dispatch f.kind with
      | .process => receive (dut.process clock f) truths fs
      | .truth =>
          match GroundTruth.fromPayload (f.payload.toList.take f.len) dut.frameIdx (clock 0) with
          | some gt => receive dut (truths ++ [gt]) fs
          | none => receive dut truths fs
      | .stop => (dut, truths)

/-- The frames that the loop takes from the channel: up to the one that ends it. -/
def received : List (Clock × DuFrame) → List (Clock × DuFrame)
  | [] => []
  | x :: fs => if dispatch x.2.kind = .stop then [x] else x :: received fs

/-! ### Matching -/

/-- Expected detections for each injected fault kind. -/
def expectedDets (kind : UInt8) : List DetKind :=
  if kind = faultBitflip ∨ kind = faultByte then [.crc, .burst]
  else if kind = faultDrop then [.gap]
  else if kind = faultDelay then [.late]
  else if kind = faultReplay then [.replay]
  else if kind = faultBurst then [.burst]
  else []

/-- `a.wrapping_sub(b) as i16`, without its sign. -/
def dseqDiff (a b : UInt16) : UInt32 :=
  UInt32.ofNat (a - b).toInt16.toInt.natAbs

/-- The time test of the matching loop: the detection is not more than two frame periods
before the truth. -/
def timeOk (cadenceMs : UInt16) (t : GroundTruth) (d : Detection) : Bool :=
  decide (-(Int64.ofNat cadenceMs.toNat * 2) < Int64.ofNat (d.atTime.millisSince t.atTime))

/-- The test of the matching loop. -/
def suits (cadenceMs : UInt16) (t : GroundTruth) (d : Detection) : Bool :=
  (expectedDets t.kind).contains d.kind && decide (dseqDiff d.seq t.atSeq ≤ 2) &&
    timeOk cadenceMs t d

/-- A detection that was paired: where the scan found it, and the latency. -/
structure Match where
  pos : ℕ
  det : Detection
  latencyMs : UInt64
deriving DecidableEq

/-- Scan forward from position `j` for the first detection that suits. -/
def scanFrom (cadenceMs : UInt16) (t : GroundTruth) : ℕ → List Detection → Option Match
  | _, [] => none
  | j, d :: ds =>
      if suits cadenceMs t d then
        some ⟨j, d, UInt64.ofNat (d.atTime.millisSince t.atTime)⟩
      else scanFrom cadenceMs t (j + 1) ds

/-- Greedy time-ordered match: pair every injection with a plausible detection. -/
def matchLoop (cadenceMs : UInt16) (detections : List Detection) :
    ℕ → List GroundTruth → List (GroundTruth × Option Match)
  | _, [] => []
  | detCursor, t :: ts =>
      -- out-of-band (physical) faults are recorded but not scored
      if (expectedDets t.kind).isEmpty then
        (t, none) :: matchLoop cadenceMs detections detCursor ts
      else
        match scanFrom cadenceMs t detCursor (detections.drop detCursor) with
        | some m => (t, some m) :: matchLoop cadenceMs detections (m.pos + 1) ts
        | none => (t, none) :: matchLoop cadenceMs detections detCursor ts

/-! ### Aggregation -/

/-- The counters of one kind of fault. -/
structure KindStat where
  kind : UInt8
  injected : UInt16
  detected : UInt16
deriving DecidableEq

/-- A row of the CSV report. -/
structure Row where
  faultId : UInt32
  kind : UInt8
  atSeq : UInt16
  detected : Bool
  label : String
  latencyMs : UInt64
deriving DecidableEq

/-- The report of a campaign. -/
structure CampaignResult where
  seed : UInt32
  profile : String
  packets : UInt16
  simulated : Bool
  injected : UInt16
  detected : UInt16
  missed : UInt16
  /-- Out-of-band faults, which are not scored. -/
  physical : UInt16
  /-- The sum of the latencies, of which `avg_latency_ms` is the mean over `detected`. -/
  latTotal : UInt64
  maxLatencyMs : UInt64
  perKind : List KindStat
  rows : List Row
deriving DecidableEq

/-- Count an injection of a kind in the table ordered by kind, `counts.entry(kind)`. -/
def countEntry (kind : UInt8) (ok : Bool) : List KindStat → List KindStat
  | [] => [⟨kind, 1, if ok then 1 else 0⟩]
  | e :: es =>
      if kind < e.kind then ⟨kind, 1, if ok then 1 else 0⟩ :: e :: es
      else if kind = e.kind then
        ⟨kind, e.injected + 1, if ok then e.detected + 1 else e.detected⟩ :: es
      else e :: countEntry kind ok es

/-- The accumulators of the aggregation loop. -/
structure Tally where
  injected : UInt16
  detected : UInt16
  physical : UInt16
  latTotal : UInt64
  latMax : UInt64
  counts : List KindStat
  rows : List Row

namespace Tally

/-- Nothing has been counted. -/
def empty : Tally := ⟨0, 0, 0, 0, 0, [], []⟩

/-- One round of the aggregation loop. -/
def add (acc : Tally) (r : GroundTruth × Option Match) : Tally :=
  let t := r.1
  let ok := r.2.isSome
  let scored := !(expectedDets t.kind).isEmpty
  let labelled : String × UInt64 := match r.2 with
    | some m => (m.det.kind.asStr, m.latencyMs)
    | none => if scored then ("__miss__", 0) else ("physical", 0)
  { injected := acc.injected + 1
    detected := if ok then acc.detected + 1 else acc.detected
    physical := if scored then acc.physical else acc.physical + 1
    latTotal := if scored && ok then acc.latTotal + labelled.2 else acc.latTotal
    latMax := if scored && ok then max acc.latMax labelled.2 else acc.latMax
    counts := countEntry t.kind ok acc.counts
    rows := acc.rows ++ [⟨t.faultId, t.kind, t.atSeq, ok, labelled.1, labelled.2⟩] }

end Tally

/-- `u16::saturating_sub`. -/
def saturatingSub (a b : UInt16) : UInt16 :=
  if b ≤ a then a - b else 0

/-- The report: the truths are paired with detections, and the pairs are tallied. -/
def score (opts : Opts) (detections : List Detection) (truths : List GroundTruth) :
    CampaignResult :=
  let acc := (matchLoop opts.cadenceMs detections 0 truths).foldl Tally.add Tally.empty
  { seed := opts.seed
    profile := opts.profile
    packets := opts.packets
    simulated := opts.simulated
    injected := acc.injected
    detected := acc.detected
    missed := saturatingSub (saturatingSub acc.injected acc.detected) acc.physical
    physical := acc.physical
    latTotal := acc.latTotal
    maxLatencyMs := acc.latMax
    perKind := acc.counts
    rows := acc.rows }

/-- A campaign: what `run` reports for the frames that reach it. -/
def run (opts : Opts) (frames : List (Clock × DuFrame)) : CampaignResult :=
  let r := receive (Dut.new opts.cadenceMs) [] frames
  score opts r.1.detections r.2

/-! ### The counters of a result -/

/-- Saturating subtraction is that of the natural numbers. -/
theorem toNat_saturatingSub (a b : UInt16) :
    (saturatingSub a b).toNat = a.toNat - b.toNat := by
  rw [saturatingSub]
  split
  · next h => exact UInt16.toNat_sub_of_le a b h
  · next h =>
    rw [UInt16.le_iff_toNat_le] at h
    simp only [UInt16.toNat_zero]
    omega

/-- The counters of the aggregation are exact as long as they do not wrap. -/
theorem foldl_add_counters (rs : List (GroundTruth × Option Match)) (acc : Tally)
    (hinj : acc.injected.toNat + rs.length < 2 ^ 16)
    (hdet : acc.detected.toNat ≤ acc.injected.toNat)
    (hphys : acc.physical.toNat ≤ acc.injected.toNat) :
    (rs.foldl Tally.add acc).injected.toNat = acc.injected.toNat + rs.length ∧
    (rs.foldl Tally.add acc).detected.toNat =
      acc.detected.toNat + rs.countP (fun r => r.2.isSome) ∧
    (rs.foldl Tally.add acc).physical.toNat =
      acc.physical.toNat + rs.countP (fun r => (expectedDets r.1.kind).isEmpty) := by
  induction rs generalizing acc with
  | nil => simp
  | cons r rs ih =>
      simp only [List.length_cons] at hinj
      have hsucc : ∀ n : UInt16, n.toNat ≤ acc.injected.toNat → (n + 1).toNat = n.toNat + 1 := by
        intro n hn
        rw [UInt16.toNat_add]
        exact Nat.mod_eq_of_lt (by simp; omega)
      have hi : (acc.add r).injected.toNat = acc.injected.toNat + 1 := hsucc _ le_rfl
      have hd : (acc.add r).detected.toNat =
          acc.detected.toNat + if r.2.isSome then 1 else 0 := by
        simp only [Tally.add]
        split
        · exact hsucc _ hdet
        · rfl
      have hp : (acc.add r).physical.toNat =
          acc.physical.toNat + if (expectedDets r.1.kind).isEmpty then 1 else 0 := by
        cases h : (expectedDets r.1.kind).isEmpty with
        | true => simpa [Tally.add, h] using hsucc _ hphys
        | false => simp [Tally.add, h]
      obtain ⟨hI, hD, hP⟩ := ih (acc.add r) (by omega) (by rw [hd, hi]; split <;> omega)
        (by rw [hp, hi]; split <;> omega)
      rw [List.foldl_cons, hI, hD, hP, hi, hd, hp, List.length_cons, List.countP_cons,
        List.countP_cons]
      refine ⟨by omega, by omega, by omega⟩

end FaultForge
