import FaultForge.Scoring

/-!
# The Time Window of the Scorer

The matching loop compares `d.at.duration_since(t.at)` with `-(frame_period * 2)`, so that a
detection should be more than two frame periods before its truth to be refused. But a
`Duration` has no sign: `duration_since` is zero for every detection that precedes the
truth, and zero is above every bound that the loop computes (`timeOk_of_le`). The loop
therefore takes an early detection as readily as a prompt one. Its test is the one that it is
meant to make (`intended`), widened by the early detections of fitting kind and number
(`suits_eq`), so what it pairs is in time only where the truths, when they look for what is
intended, pass over no early detection (`NoneEarly`).

## Main results

* `timeOk_of_le`: the test refuses no detection for being early.
* `matchLoop_pos_untimed`: the window has no effect on what is paired.
* `suits_eq`: the loop's test is the intended one or the detection is early.
* `pairsInTime_iff`: when the detections that the loop pairs are in time.
-/

namespace FaultForge

open FirstFit

variable {cadenceMs : UInt16} {dets : List Detection} {truths : List GroundTruth}

/-- The detection is at most two frame periods before the truth, or behind it: the signed
difference of the two instants is greater than `-2 * cadence_ms` milliseconds. -/
def InTime (cadenceMs : UInt16) (t : GroundTruth) (d : Detection) : Prop :=
  -(2 * cadenceMs.toNat * 1000000 : ℤ) < d.atTime.nanos - t.atTime.nanos

instance (cadenceMs : UInt16) (t : GroundTruth) (d : Detection) :
    Decidable (InTime cadenceMs t d) :=
  inferInstanceAs (Decidable (_ < _))

/-- The time window is enforced: every detection that is paired is in time for its truth. -/
def PairsInTime (cadenceMs : UInt16) (dets : List Detection) (truths : List GroundTruth) : Prop :=
  ∀ r ∈ matchLoop cadenceMs dets 0 truths, ∀ m ∈ r.2, InTime cadenceMs r.1 m.det

/-- The loop's test of a pair without the time window. -/
def untimedSuits (t : GroundTruth) (d : Detection) : Bool :=
  (expectedDets t.kind).contains d.kind && decide (dseqDiff d.seq t.atSeq ≤ 2)

/-- The test that the loop is meant to make: by the kind, the sequence number and the signed
window. What the loop's own time test adds to it is only that the cast to `i64` wraps for a
detection `2 ^ 63` milliseconds or more behind the truth (`intended_of_span`). -/
def intended (cadenceMs : UInt16) (t : GroundTruth) (d : Detection) : Bool :=
  untimedSuits t d && decide (InTime cadenceMs t d) && timeOk cadenceMs t d

/-- The detection is of fitting kind and number, but two frame periods or more before the
truth. -/
def early (cadenceMs : UInt16) (t : GroundTruth) (d : Detection) : Bool :=
  untimedSuits t d && !decide (InTime cadenceMs t d)

/-- No early detection is passed over: when the truths, in order, look for the first detection
that passes the intended test, each behind the one taken before, none of them goes over a
detection that is early for it. -/
def NoneEarly (cadenceMs : UInt16) (dets : List Detection) (truths : List GroundTruth) : Prop :=
  NonePassed (intended cadenceMs) (early cadenceMs) dets truths

/-- **The test refuses no early detection**: a detection that precedes its truth passes,
however long before it was. -/
theorem timeOk_of_le {t : GroundTruth} {d : Detection} (hcad : 0 < cadenceMs)
    (hle : d.atTime.nanos ≤ t.atTime.nanos) : timeOk cadenceMs t d = true := by
  have hzero : d.atTime.millisSince t.atTime = 0 := by
    rw [Instant.millisSince, Nat.sub_eq_zero_of_le hle, Nat.zero_div]
  exact timeOk_of_lt hcad (by rw [hzero]; decide)

/-- In a run of less than `2 ^ 63` milliseconds the intended test is by the kind, the sequence
number and the window alone. -/
theorem intended_of_span {t : GroundTruth} {d : Detection} (hcad : 0 < cadenceMs)
    (hspan : d.atTime.millisSince t.atTime < 2 ^ 63) :
    intended cadenceMs t d = (untimedSuits t d && decide (InTime cadenceMs t d)) := by
  rw [intended, timeOk_of_lt hcad hspan, Bool.and_true]

/-- **What the loop's test lets pass**: what it is meant to, and whatever is early. -/
theorem suits_eq (hcad : 0 < cadenceMs) (t : GroundTruth) (d : Detection) :
    suits cadenceMs t d = (intended cadenceMs t d || early cadenceMs t d) := by
  have hsuits : suits cadenceMs t d = (untimedSuits t d && timeOk cadenceMs t d) := rfl
  by_cases hin : InTime cadenceMs t d
  · simp [hsuits, intended, early, hin]
  · have hle : d.atTime.nanos ≤ t.atTime.nanos := by
      rw [InTime] at hin
      omega
    simp [hsuits, intended, early, hin, timeOk_of_le hcad hle]

/-- **The window has no effect** in a run of less than `2 ^ 63` milliseconds: the loop pairs
truths and detections by their kinds and sequence numbers alone. -/
theorem matchLoop_pos_untimed (hcad : 0 < cadenceMs) (c : ℕ)
    (hspan : ∀ t ∈ truths, ∀ d ∈ dets, d.atTime.millisSince t.atTime < 2 ^ 63) :
    (matchLoop cadenceMs dets c truths).map (fun r => r.2.map Match.pos) =
      pairing untimedSuits dets c truths := by
  rw [matchLoop_pos]
  refine pairing_congr fun t ht d hd => ?_
  rw [suits, timeOk_of_lt hcad (hspan t ht d hd), Bool.and_true, untimedSuits]

/-- A detection that the loop takes is in time iff it passes the intended test. -/
theorem intended_iff_inTime {r : GroundTruth × Option Match} {m : Match}
    (hr : r ∈ matchLoop cadenceMs dets 0 truths) (hm : r.2 = some m) :
    intended cadenceMs r.1 m.det = true ↔ InTime cadenceMs r.1 m.det := by
  have hsuits : (untimedSuits r.1 m.det && timeOk cadenceMs r.1 m.det) = true :=
    (matchLoop_spec hr hm).2.1
  obtain ⟨huntimed, htime⟩ := Bool.and_eq_true_iff.mp hsuits
  simp [intended, huntimed, htime]

/-- **When the time window is enforced**: iff the truths, when they look for what is intended,
pass over no early detection. -/
theorem pairsInTime_iff (hcad : 0 < cadenceMs) :
    PairsInTime cadenceMs dets truths ↔ NoneEarly cadenceMs dets truths := by
  have hwanted := @forall_wanted_iff _ _ _ dets 0 truths _ _ (suits_eq hcad)
  rw [List.drop_zero, ← matchLoop_zip, List.forall_mem_map] at hwanted
  rw [PairsInTime, NoneEarly, ← hwanted]
  refine forall₂_congr fun r hr => ⟨fun h j hj d hd => ?_, fun h m hm => ?_⟩
  · obtain ⟨m, hm, rfl⟩ := Option.map_eq_some_iff.mp hj
    obtain rfl : m.det = d := by simpa [(matchLoop_spec hr hm).1] using hd
    exact (intended_iff_inTime hr hm).mpr (h m hm)
  · have hpos : m.pos ∈ r.2.map Match.pos := Option.map_eq_some_iff.mpr ⟨m, hm, rfl⟩
    exact (intended_iff_inTime hr hm).mp (h m.pos hpos m.det (matchLoop_spec hr hm).1)

/-- The gap of a DROP is taken in time although a gap at another number is a second early. -/
theorem late_gap_inTime :
    PairsInTime 5 [⟨.gap, 40, ⟨0⟩, 0⟩, ⟨.gap, 11, ⟨1005000000⟩, 0⟩]
      [⟨1, faultDrop, 10, 0, ⟨1000000000⟩⟩] :=
  (pairsInTime_iff (by decide)).mpr ⟨by decide, trivial⟩

/-- A gap at 10 that was recorded a second before the DROP at 10 is taken as its detection,
at a cadence of five milliseconds. -/
theorem early_gap_not_inTime :
    ¬ (∀ (cadenceMs : UInt16) (dets : List Detection) (truths : List GroundTruth),
        1 ≤ cadenceMs → PairsInTime cadenceMs dets truths) ∧
    ¬ PairsInTime 5 [⟨.gap, 10, ⟨0⟩, 0⟩] [⟨1, faultDrop, 10, 0, ⟨1000000000⟩⟩] := by
  have hearly :
      ¬ PairsInTime 5 [⟨.gap, 10, ⟨0⟩, 0⟩] [⟨1, faultDrop, 10, 0, ⟨1000000000⟩⟩] := by
    intro h
    have hin := h (⟨1, faultDrop, 10, 0, ⟨1000000000⟩⟩, some ⟨0, ⟨.gap, 10, ⟨0⟩, 0⟩, 0⟩)
      (by decide +kernel) _ rfl
    exact absurd hin (by decide)
  exact ⟨fun h => hearly (h 5 _ _ (by decide)), hearly⟩

end FaultForge
