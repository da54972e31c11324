import FaultForge.Report

/-!
# What the Score Does Not Depend On

Two runs of the scorer are compared. In the first comparison one list of truths has a
physical fault more than the other: the matching loop passes over it without moving its
cursor, so the matches before and behind it are those of the other run
(`matchLoop_insert`). In the second, a constant is added to every sequence number of a
campaign: a pair is tested by the circular distance of its numbers, which the constant
leaves alone, so that each function of the scorer commutes with the shift (`suits_shift`,
`scanFrom_shift`, `matchLoop_shift`, `Tally.foldl_add_shift`).

## Main results

* `physical_transparent`: a physical fault is counted, and changes nothing else.
* `score_shift`: a campaign is scored alike wherever in the sequence space it runs.
-/

namespace FaultForge

variable {cadenceMs : UInt16} {dets : List Detection} {truths : List GroundTruth}

/-! ### A physical fault more -/

/-- The physical kinds: every kind but the six that the injector can inflict on the link. -/
theorem isEmpty_expectedDets_iff {kind : UInt8} :
    (expectedDets kind).isEmpty = true ↔
      kind ∉ [faultBitflip, faultByte, faultDrop, faultDelay, faultReplay, faultBurst] := by
  simp only [expectedDets, List.mem_cons, List.not_mem_nil, or_false]
  split_ifs with hcrc <;> simp_all
  exact fun hbit hbyte => absurd hcrc (not_or.mpr ⟨hbit, hbyte⟩)

/-- The loop passes over a physical fault: what it finds for the truths before and behind
the fault is what it finds without it. -/
theorem matchLoop_insert {p : GroundTruth} (hp : (expectedDets p.kind).isEmpty = true)
    (A B : List GroundTruth) (c : ℕ) :
    ∃ before behind, before.length = A.length ∧
      matchLoop cadenceMs dets c (A ++ B) = before ++ behind ∧
      matchLoop cadenceMs dets c (A ++ [p] ++ B) = before ++ [(p, none)] ++ behind := by
  induction A generalizing c with
  | nil => exact ⟨[], matchLoop cadenceMs dets c B, rfl, rfl, by simp [matchLoop, hp]⟩
  | cons t A ih =>
      -- the truth leaves the cursor at the same place in both runs
      have hstep : ∃ m c', ∀ ts, matchLoop cadenceMs dets c (t :: ts) =
          (t, m) :: matchLoop cadenceMs dets c' ts := by
        simp only [matchLoop]
        split
        · exact ⟨none, c, fun _ => rfl⟩
        · split
          · next m _ => exact ⟨some m, m.pos + 1, fun _ => rfl⟩
          · exact ⟨none, c, fun _ => rfl⟩
      obtain ⟨m, c', hstep⟩ := hstep
      obtain ⟨before, behind, hlen, hwithout, hwith⟩ := ih c'
      refine ⟨(t, m) :: before, behind, by simp [hlen], ?_, ?_⟩
      · rw [List.cons_append, hstep, hwithout, List.cons_append]
      · rw [List.cons_append, List.cons_append, hstep, hwith, List.cons_append, List.cons_append]

/-- The row of a physical fault. -/
def physicalRow (p : GroundTruth) : Row :=
  ⟨p.faultId, p.kind, p.atSeq, false, "physical", 0⟩

/-- The row of a physical fault does not depend on the detections. -/
theorem rowOf_physical {p : GroundTruth} (hp : (expectedDets p.kind).isEmpty = true) :
    rowOf (p, none) = physicalRow p := by
  simp [rowOf, physicalRow, hp]

/-- **Physical faults are transparent to scoring.** With a physical fault put in anywhere,
every other truth has the detection and the row that it has without the fault, as many are
detected and missed and the maximal latency is the same; one more is injected and one more
is physical. -/
theorem physical_transparent (opts : Opts) (dets : List Detection) (A B : List GroundTruth)
    (p : GroundTruth) (hp : (expectedDets p.kind).isEmpty = true)
    (hlen : (A ++ [p] ++ B).length ≤ 65535) :
    let res := score opts dets (A ++ B)
    let res' := score opts dets (A ++ [p] ++ B)
    (∃ before behind, before.length = A.length ∧
      matchLoop opts.cadenceMs dets 0 (A ++ B) = before ++ behind ∧
      matchLoop opts.cadenceMs dets 0 (A ++ [p] ++ B) = before ++ [(p, none)] ++ behind) ∧
    (∃ before behind, before.length = A.length ∧ res.rows = before ++ behind ∧
      res'.rows = before ++ [physicalRow p] ++ behind) ∧
    res'.detected = res.detected ∧ res'.missed = res.missed ∧
    res'.maxLatencyMs = res.maxLatencyMs ∧
    res'.injected.toNat = res.injected.toNat + 1 ∧
    res'.physical.toNat = res.physical.toNat + 1 := by
  intro res res'
  obtain ⟨before, behind, hbefore, hwithout, hwith⟩ :=
    @matchLoop_insert opts.cadenceMs dets p hp A B 0
  have hrows : res.rows = before.map rowOf ++ behind.map rowOf := by
    rw [rows_score, hwithout, List.map_append]
  have hrows' : res'.rows = before.map rowOf ++ [physicalRow p] ++ behind.map rowOf := by
    rw [rows_score, hwith, List.map_append, List.map_append, List.map_singleton,
      rowOf_physical hp]
  have hlen' : (A ++ [p] ++ B).length < 2 ^ 16 := Nat.lt_succ_of_le hlen
  have hshort : (A ++ B).length < 2 ^ 16 := by
    simp only [List.length_append, List.length_singleton] at hlen' ⊢
    omega
  obtain ⟨hinj, hdet, hphys⟩ := @counters_score opts dets _ hshort
  obtain ⟨hinj', hdet', hphys'⟩ := @counters_score opts dets _ hlen'
  refine ⟨⟨before, behind, hbefore, hwithout, hwith⟩,
    ⟨before.map rowOf, behind.map rowOf, by simpa using hbefore, hrows, hrows'⟩,
    UInt16.toNat_inj.mp ?_, UInt16.toNat_inj.mp ?_, UInt64.toNat_inj.mp ?_, ?_, ?_⟩
  · -- the fault's row is none of the detected ones
    rw [hdet, hdet', hrows, hrows']
    simp [physicalRow]
  · rw [missed_score opts hshort, missed_score opts hlen', hwithout, hwith]
    simp [hp]
  · -- its latency of zero does not exceed any other
    obtain ⟨-, hlat, -⟩ := Tally.foldl_add_eq (matchLoop opts.cadenceMs dets 0 (A ++ B)) .empty
      fun _ => scored_of_paired
    obtain ⟨-, hlat', -⟩ := Tally.foldl_add_eq (matchLoop opts.cadenceMs dets 0 (A ++ [p] ++ B))
      .empty fun _ => scored_of_paired
    refine hlat'.trans (Eq.trans ?_ hlat.symm)
    rw [hwithout, hwith]
    simp [rowOf_physical hp, physicalRow]
  · rw [hinj, hinj', hrows, hrows']
    simp only [List.length_append, List.length_singleton]
    omega
  · rw [hphys, hphys', hrows, hrows']
    simp only [List.countP_append, List.countP_singleton, physicalRow, hp, if_true]
    omega

/-- A DUTY fault between two drops that are both detected. -/
theorem duty_transparent :
    (score ⟨true, 1, 100, 5, "fuzz", true⟩ [⟨.gap, 11, ⟨0⟩, 0⟩, ⟨.gap, 21, ⟨0⟩, 0⟩]
      ([⟨1, faultDrop, 10, 0, ⟨0⟩⟩] ++ [⟨2, faultDuty, 15, 0, ⟨0⟩⟩] ++
        [⟨3, faultDrop, 20, 0, ⟨0⟩⟩])).detected =
    (score ⟨true, 1, 100, 5, "fuzz", true⟩ [⟨.gap, 11, ⟨0⟩, 0⟩, ⟨.gap, 21, ⟨0⟩, 0⟩]
      ([⟨1, faultDrop, 10, 0, ⟨0⟩⟩] ++ [⟨3, faultDrop, 20, 0, ⟨0⟩⟩])).detected :=
  (physical_transparent _ _ _ _ _ (isEmpty_expectedDets_iff.mpr (by decide)) (by decide)).2.2.1

/-! ### Shifted sequence numbers -/

/-- The detection with a constant added to its sequence number. -/
def Detection.shift (c : UInt16) (d : Detection) : Detection :=
  { d with seq := d.seq + c }

/-- The truth with a constant added to its sequence number. -/
def GroundTruth.shift (c : UInt16) (t : GroundTruth) : GroundTruth :=
  { t with atSeq := t.atSeq + c }

/-- The row with a constant added to its sequence number. -/
def Row.shift (c : UInt16) (r : Row) : Row :=
  { r with atSeq := r.atSeq + c }

/-- The match of the shifted detection. -/
def Match.shift (c : UInt16) (m : Match) : Match :=
  { m with det := m.det.shift c }

/-- A truth and its match, both shifted. -/
def shiftPair (c : UInt16) (r : GroundTruth × Option Match) : GroundTruth × Option Match :=
  (r.1.shift c, r.2.map (Match.shift c))

/-- The accumulators with the rows shifted. -/
def Tally.shift (c : UInt16) (acc : Tally) : Tally :=
  { acc with rows := acc.rows.map (Row.shift c) }

/-- A shift keeps the kind. -/
@[simp] theorem kind_shift (c : UInt16) (t : GroundTruth) : (t.shift c).kind = t.kind := rfl

/-- A shift keeps the place in the list. -/
@[simp] theorem pos_shift (c : UInt16) (m : Match) : (m.shift c).pos = m.pos := rfl

/-- The sequence test measures the circular distance. -/
theorem dseqDiff_le_two_iff (a b : UInt16) : dseqDiff a b ≤ 2 ↔ circularDist a b ≤ 2 := by
  rw [UInt32.le_iff_toNat_le, toNat_dseqDiff]
  rfl

/-- The distance of two sequence numbers does not change when both are shifted. -/
theorem dseqDiff_shift (a b c : UInt16) : dseqDiff (a + c) (b + c) = dseqDiff a b := by
  have hb := b.toNat_lt
  have hc := c.toNat_lt
  have hsub : a + c - (b + c) = a - b := by
    apply UInt16.toNat_inj.mp
    simp only [UInt16.toNat_sub, UInt16.toNat_add]
    omega
  rw [dseqDiff, dseqDiff, hsub]

/-- So the test of a pair does not change either. -/
@[simp] theorem suits_shift (c : UInt16) (t : GroundTruth) (d : Detection) :
    suits cadenceMs (t.shift c) (d.shift c) = suits cadenceMs t d := by
  have hseq : dseqDiff (d.shift c).seq (t.shift c).atSeq = dseqDiff d.seq t.atSeq :=
    dseqDiff_shift d.seq t.atSeq c
  rw [suits, suits, hseq]
  rfl

/-- The scan stops at the same place. -/
theorem scanFrom_shift (c : UInt16) (t : GroundTruth) (j : ℕ) (ds : List Detection) :
    scanFrom cadenceMs (t.shift c) j (ds.map (Detection.shift c)) =
      (scanFrom cadenceMs t j ds).map (Match.shift c) := by
  induction ds generalizing j with
  | nil => rfl
  | cons d ds ih =>
      simp only [List.map_cons, scanFrom, suits_shift]
      split
      · rfl
      · exact ih (j + 1)

/-- The matches of a shifted campaign are the shifted matches. -/
theorem matchLoop_shift (c : UInt16) (j : ℕ) :
    matchLoop cadenceMs (dets.map (Detection.shift c)) j (truths.map (GroundTruth.shift c)) =
      (matchLoop cadenceMs dets j truths).map (shiftPair c) := by
  induction truths generalizing j with
  | nil => rfl
  | cons t ts ih =>
      rw [List.map_cons, matchLoop, matchLoop, kind_shift, ← List.map_drop, scanFrom_shift]
      split
      · rw [ih]
        rfl
      · cases scanFrom cadenceMs t j (dets.drop j) with
        | none =>
            simp only [Option.map_none, ih]
            rfl
        | some m =>
            simp only [Option.map_some, pos_shift, ih]
            rfl

/-- One round of the aggregation reads no sequence number but to write it in the row. -/
theorem Tally.add_shift (c : UInt16) (acc : Tally) (r : GroundTruth × Option Match) :
    (acc.shift c).add (shiftPair c r) = (acc.add r).shift c := by
  obtain ⟨t, m⟩ := r
  cases m <;> simp [Tally.add, Tally.shift, shiftPair, Row.shift, GroundTruth.shift, Match.shift,
    Detection.shift]

/-- The aggregation shifts the rows, and the counters stay. -/
theorem Tally.foldl_add_shift (c : UInt16) (rs : List (GroundTruth × Option Match))
    (acc : Tally) :
    (rs.map (shiftPair c)).foldl Tally.add (acc.shift c) =
      (rs.foldl Tally.add acc).shift c := by
  induction rs generalizing acc with
  | nil => rfl
  | cons r rs ih => rw [List.map_cons, List.foldl_cons, Tally.add_shift, ih, List.foldl_cons]

/-- **Scoring does not depend on where in the sequence space a campaign runs.** With a
constant added to every sequence number, the result is the same but for the sequence
numbers of its rows: two numbers pass the test exactly when their circular distance is at
most 2. -/
theorem score_shift (opts : Opts) (dets : List Detection) (truths : List GroundTruth)
    (c : UInt16) :
    score opts (dets.map (Detection.shift c)) (truths.map (GroundTruth.shift c)) =
      { score opts dets truths with
        rows := (score opts dets truths).rows.map (Row.shift c) } ∧
    ∀ a b, dseqDiff a b ≤ 2 ↔ circularDist a b ≤ 2 := by
  refine ⟨?_, dseqDiff_le_two_iff⟩
  have hfold := Tally.foldl_add_shift c (matchLoop opts.cadenceMs dets 0 truths) Tally.empty
  simp only [score, matchLoop_shift]
  rw [show Tally.empty = Tally.empty.shift c from rfl, hfold]
  rfl

end FaultForge
