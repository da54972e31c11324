import Mathlib.Data.List.Forall2
import FaultForge.Calibration
import FaultForge.Latecomer

/-!
# What the Report Knows of Time

The host reads a clock at several places, keeps the readings in its detections and ground truths,
and takes the difference of two of them wherever it needs a time: in the sequence check, in the
time test of the matching loop and in the latency. So two campaigns that see the same frames end
with the same report when any two readings of the one clock are as many whole milliseconds apart
as the corresponding readings of the other, whatever the readings are themselves.

The argument relates the two campaigns step by step. `R` relates the readings of the clocks,
`LikeDet`, `LikeTruth`, `LikeDut` and `LikeMatch` lift it to what is made of them, and nothing
but `AsFarApart R` is ever used of the relation.

## Main results

* `LikeDut.receive`: the campaigns record the same, at related times.
* `likePairs_matchLoop`: the same truths are paired with the same detections.
* `run_of_differences`: the reports are equal.
-/

namespace FaultForge

/-! ### Related readings -/

variable {R : Instant → Instant → Prop}

/-- Related readings are as many whole milliseconds apart. -/
def AsFarApart (R : Instant → Instant → Prop) : Prop :=
  ∀ a a' b b', R a a' → R b b' → a.millisSince b = a'.millisSince b'

/-- The same detection, at a related time. -/
structure LikeDet (R : Instant → Instant → Prop) (e e' : Detection) : Prop where
  kind : e.kind = e'.kind
  seq : e.seq = e'.seq
  frameIdx : e.frameIdx = e'.frameIdx
  atTime : R e.atTime e'.atTime

/-- The same ground truth, collected at a related time. -/
structure LikeTruth (R : Instant → Instant → Prop) (t t' : GroundTruth) : Prop where
  faultId : t.faultId = t'.faultId
  kind : t.kind = t'.kind
  atSeq : t.atSeq = t'.atSeq
  frameIdx : t.frameIdx = t'.frameIdx
  atTime : R t.atTime t'.atTime

/-- The same state, but for the times. -/
structure LikeDut (R : Instant → Instant → Prop) (d d' : Dut) : Prop where
  cadenceMs : d.cadenceMs = d'.cadenceMs
  lastSeq : d.lastSeq = d'.lastSeq
  lastTime : Option.Rel R d.lastTime d'.lastTime
  junkRun : d.junkRun = d'.junkRun
  burstFlagged : d.burstFlagged = d'.burstFlagged
  frameIdx : d.frameIdx = d'.frameIdx
  detections : List.Forall₂ (LikeDet R) d.detections d'.detections

/-- A pair of the matching loop, with the same latency. -/
structure LikeMatch (R : Instant → Instant → Prop) (m m' : Match) : Prop where
  pos : m.pos = m'.pos
  det : LikeDet R m.det m'.det
  latencyMs : m.latencyMs = m'.latencyMs

/-! ### Recording -/

namespace LikeDut

variable {d d' : Dut} {clock clock' : Clock}

/-- Two new devices are alike, whatever their clocks will show. -/
theorem new (cadenceMs : UInt16) : LikeDut R (.new cadenceMs) (.new cadenceMs) :=
  ⟨rfl, rfl, .none, rfl, rfl, rfl, .nil⟩

/-- The sequence check sees one difference of two readings. -/
theorem checkSeq (hR : AsFarApart R) (h : LikeDut R d d') (seq : UInt16) {now now' : Instant}
    (hnow : R now now') : d.checkSeq seq now = d'.checkSeq seq now' := by
  have htime := h.lastTime
  rw [Dut.checkSeq, Dut.checkSeq, Dut.lateBudgetMs, Dut.lateBudgetMs, h.lastSeq, h.cadenceMs]
  generalize d.lastTime = last, d'.lastTime = last' at htime
  cases d'.lastSeq with
  | none => rfl
  | some seq' =>
      cases htime with
      | none => rfl
      | some hlast => simp only [hR _ _ _ _ hnow hlast]

/-- A burst is recorded by both or by neither. -/
theorem burst (h : LikeDut R d d') (hclock : ∀ k, R (clock k) (clock' k)) (f : DuFrame) :
    List.Forall₂ (LikeDet R) (d.burst clock f).toList (d'.burst clock' f).toList := by
  have hnext : d.nextSeq = d'.nextSeq := by rw [Dut.nextSeq, Dut.nextSeq, h.lastSeq]
  rw [Dut.burst, Dut.burst, h.junkRun, h.burstFlagged, h.frameIdx, hnext]
  split
  · exact .cons ⟨rfl, rfl, rfl, hclock 0⟩ .nil
  · exact .nil

/-- So is an anomaly: lateness is a difference of two readings. -/
theorem anomaly (hR : AsFarApart R) (h : LikeDut R d d') (hclock : ∀ k, R (clock k) (clock' k))
    (f : DuFrame) :
    List.Forall₂ (LikeDet R) (d.anomaly clock f).toList (d'.anomaly clock' f).toList := by
  have hnext : d.nextSeq = d'.nextSeq := by rw [Dut.nextSeq, Dut.nextSeq, h.lastSeq]
  rw [Dut.anomaly, Dut.anomaly, h.checkSeq hR f.seq (hclock 1), h.frameIdx, hnext]
  split
  · exact .nil
  · split
    · exact .cons ⟨rfl, rfl, rfl, hclock 1⟩ .nil
    · split
      · exact .nil
      · cases d'.checkSeq f.seq (clock' 1) with
        | none => exact .nil
        | some k => exact .cons ⟨rfl, rfl, rfl, hclock 2⟩ .nil

/-- One frame leaves the states alike. -/
theorem process (hR : AsFarApart R) (h : LikeDut R d d') (hclock : ∀ k, R (clock k) (clock' k))
    (f : DuFrame) : LikeDut R (d.process clock f) (d'.process clock' f) := by
  rw [Dut.process_eq, Dut.process_eq]
  refine ⟨h.cadenceMs, by simp only [h.lastSeq], ?_, by simp only [h.junkRun],
    by simp only [h.burstFlagged, h.junkRun], by simp only [h.frameIdx], ?_⟩
  · simp only
    split
    · exact .some (hclock 1)
    · exact h.lastTime
  · exact List.rel_append (List.rel_append h.detections (h.burst hclock f))
      (h.anomaly hR hclock f)

/-- An announcement is read as the same. -/
theorem fromPayload {now now' : Instant} (hnow : R now now') (payload : List UInt8)
    (frameIdx : UInt64) :
    Option.Rel (LikeTruth R) (GroundTruth.fromPayload payload frameIdx now)
      (GroundTruth.fromPayload payload frameIdx now') := by
  rw [GroundTruth.fromPayload, GroundTruth.fromPayload]
  split
  · exact .none
  · exact .some ⟨rfl, rfl, rfl, rfl, hnow⟩

/-- **The two campaigns record the same**, at related times. -/
theorem receive (hR : AsFarApart R) (h : LikeDut R d d') {truths truths' : List GroundTruth}
    (htruths : List.Forall₂ (LikeTruth R) truths truths')
    {arrivals arrivals' : List (Clock × DuFrame)}
    (harrivals : List.Forall₂ (fun x y => x.2 = y.2 ∧ ∀ k, R (x.1 k) (y.1 k))
      arrivals arrivals') :
    LikeDut R (FaultForge.receive d truths arrivals).1
        (FaultForge.receive d' truths' arrivals').1 ∧
      List.Forall₂ (LikeTruth R) (FaultForge.receive d truths arrivals).2
        (FaultForge.receive d' truths' arrivals').2 := by
  induction harrivals generalizing d d' truths truths' with
  | nil => exact ⟨h, htruths⟩
  | @cons x y arrivals arrivals' hxy _ ih =>
      obtain ⟨clock, f⟩ := x
      obtain ⟨clock', f'⟩ := y
      obtain ⟨hframe, hclock⟩ := hxy
      cases hframe
      rw [FaultForge.receive, FaultForge.receive]
      cases dispatch f.kind with
      | process => exact ih (h.process hR hclock f) htruths
      | truth =>
          have htold := fromPayload (hclock 0) (f.payload.toList.take f.len) d.frameIdx
          rw [h.frameIdx] at htold ⊢
          simp only
          generalize GroundTruth.fromPayload (f.payload.toList.take f.len) d'.frameIdx (clock 0) =
            gt, GroundTruth.fromPayload (f.payload.toList.take f.len) d'.frameIdx (clock' 0) =
            gt' at htold ⊢
          cases htold with
          | none => exact ih h htruths
          | some hgt => exact ih h (List.rel_append htruths (.cons hgt .nil))
      | stop => exact ⟨h, htruths⟩

end LikeDut

/-! ### Scoring -/

variable {cadenceMs : UInt16} {t t' : GroundTruth} {ds ds' : List Detection}

/-- The test of the matching loop sees one difference of two readings. -/
theorem LikeTruth.suits (hR : AsFarApart R) (ht : LikeTruth R t t') {e e' : Detection}
    (he : LikeDet R e e') : suits cadenceMs t e = suits cadenceMs t' e' := by
  rw [FaultForge.suits, FaultForge.suits, timeOk, timeOk, ht.kind, ht.atSeq, he.kind, he.seq,
    hR _ _ _ _ he.atTime ht.atTime]

/-- The scan for a truth stops at the same place, with the same latency. -/
theorem LikeTruth.scanFrom (hR : AsFarApart R) (ht : LikeTruth R t t')
    (hds : List.Forall₂ (LikeDet R) ds ds') (j : ℕ) :
    Option.Rel (LikeMatch R) (scanFrom cadenceMs t j ds) (scanFrom cadenceMs t' j ds') := by
  induction hds generalizing j with
  | nil => exact .none
  | @cons e e' ds ds' he _ ih =>
      rw [FaultForge.scanFrom, FaultForge.scanFrom, ht.suits hR he]
      split
      · exact .some ⟨rfl, he, congrArg UInt64.ofNat (hR _ _ _ _ he.atTime ht.atTime)⟩
      · exact ih (j + 1)

/-- A truth and its match, at related times. -/
def LikePair (R : Instant → Instant → Prop) (r r' : GroundTruth × Option Match) : Prop :=
  LikeTruth R r.1 r'.1 ∧ Option.Rel (LikeMatch R) r.2 r'.2

/-- **The same truths are paired with the same detections.** -/
theorem likePairs_matchLoop (hR : AsFarApart R) (hds : List.Forall₂ (LikeDet R) ds ds')
    {ts ts' : List GroundTruth} (hts : List.Forall₂ (LikeTruth R) ts ts') (j : ℕ) :
    List.Forall₂ (LikePair R) (matchLoop cadenceMs ds j ts) (matchLoop cadenceMs ds' j ts') := by
  induction hts generalizing j with
  | nil => exact .nil
  | @cons t t' ts ts' ht _ ih =>
      rw [matchLoop, matchLoop, ht.kind]
      split
      · exact .cons ⟨ht, .none⟩ (ih j)
      · have hscan := @LikeTruth.scanFrom R cadenceMs t t' (ds.drop j) (ds'.drop j) hR ht
          (List.forall₂_drop j hds) j
        generalize scanFrom cadenceMs t j (ds.drop j) = found,
          scanFrom cadenceMs t' j (ds'.drop j) = found' at hscan
        cases hscan with
        | none => exact .cons ⟨ht, .none⟩ (ih j)
        | @some m m' hm =>
            simp only [hm.pos]
            exact .cons ⟨ht, .some hm⟩ (ih (m'.pos + 1))

/-- The aggregation reads no time but the latencies. -/
theorem LikePair.add {r r' : GroundTruth × Option Match} (h : LikePair R r r') (acc : Tally) :
    acc.add r = acc.add r' := by
  obtain ⟨t, m⟩ := r
  obtain ⟨t', m'⟩ := r'
  obtain ⟨ht, hm⟩ := h
  simp only at ht hm
  cases hm with
  | none => simp only [Tally.add, ht.kind, ht.faultId, ht.atSeq]
  | some hm =>
      simp only [Tally.add, ht.kind, ht.faultId, ht.atSeq, hm.det.kind, hm.latencyMs,
        Option.isSome_some]

/-- The aggregation cannot tell such matches apart. -/
theorem foldl_add_like {rs rs' : List (GroundTruth × Option Match)}
    (h : List.Forall₂ (LikePair R) rs rs') (acc : Tally) :
    rs.foldl Tally.add acc = rs'.foldl Tally.add acc := by
  induction h generalizing acc with
  | nil => rfl
  | cons hr _ ih => rw [List.foldl_cons, List.foldl_cons, hr.add, ih]

/-! ### Campaigns -/

/-- **The report depends on the clock only through differences.** When any two readings of one
clock are as many whole milliseconds apart as the corresponding readings of the other, the same
frames end in the same report, row by row. In particular nothing depends on the origin of the
clock. -/
theorem run_of_differences (opts : Opts) (clock clock' : ℕ → Clock) (frames : List DuFrame)
    (hdiff : ∀ i k j l,
      (clock i k).millisSince (clock j l) = (clock' i k).millisSince (clock' j l)) :
    run opts (stamp clock frames) = run opts (stamp clock' frames) := by
  let R : Instant → Instant → Prop := fun a a' => ∃ i k, a = clock i k ∧ a' = clock' i k
  have hR : AsFarApart R := by
    rintro _ _ _ _ ⟨i, k, rfl, rfl⟩ ⟨j, l, rfl, rfl⟩
    exact hdiff i k j l
  have harrivals : List.Forall₂ (fun x y => x.2 = y.2 ∧ ∀ k, R (x.1 k) (y.1 k))
      (stamp clock frames) (stamp clock' frames) := by
    refine List.forall₂_iff_get.mpr ⟨by simp [stamp], fun i hi hi' => ?_⟩
    simp only [stamp, List.get_eq_getElem, List.getElem_mapIdx]
    exact ⟨trivial, fun k => ⟨i, k, rfl, rfl⟩⟩
  obtain ⟨hdut, htruths⟩ := (LikeDut.new opts.cadenceMs).receive hR .nil harrivals
  have hpairs := @likePairs_matchLoop R opts.cadenceMs _ _ hR hdut.detections _ _ htruths 0
  simp only [run, score, foldl_add_like hpairs]

/-- A lost frame, on two clocks of different origins. -/
theorem run_of_other_origin :
    let frames := [sensorFrame 0 5 0, sensorFrame 2 5 0, faultFrame 1 faultDrop 1, endFrame 3 1]
    run ⟨true, 1, 3, 5, "fuzz", true⟩ (stamp (fun i _ => ⟨1000000 * i⟩) frames) =
      run ⟨true, 1, 3, 5, "fuzz", true⟩ (stamp (fun i _ => ⟨7 + 1000000 * i⟩) frames) :=
  run_of_differences _ _ _ _ fun i _ j _ => by
    simp only [Instant.millisSince, Nat.add_sub_add_left]

end FaultForge
