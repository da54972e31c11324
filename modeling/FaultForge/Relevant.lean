import FaultForge.Report

/-!
# Which Detections Matter

The matching loop keeps a cursor into the detections, but a report says nothing about positions:
of a matching it keeps which detection each truth takes (`FirstFit.taken`), and when. So the rules
of the library for the offers that are taken become rules for whole reports. A detection that is
plausible for none of the truths makes no difference wherever it stands, so the bench never
charges a false alarm; and a list of truths may be scored in two parts, the second one with the
detections that the first one leaves.

## Main results

* `score_congr`: a report depends on the detections taken.
* `false_alarms_ignored`: what the implausible detections do to a report.
* `score_in_parts`: the report of two lists of truths in a row.
-/

namespace FaultForge

open FirstFit

variable {opts : Opts} {cadenceMs : UInt16} {dets dets' : List Detection}
  {truths : List GroundTruth}

/-! ### What the report reads -/

/-- What the report reads of a truth and its match: the detection and the latency. -/
def reading (r : GroundTruth × Option Match) : GroundTruth × Option (Detection × UInt64) :=
  (r.1, r.2.map fun m => (m.det, m.latencyMs))

/-- The same of a truth and the detection that it takes. -/
def readingOf (t : GroundTruth) (o : Option Detection) :
    GroundTruth × Option (Detection × UInt64) :=
  (t, o.map fun d => (d, UInt64.ofNat (d.atTime.millisSince t.atTime)))

/-- **What the report reads of the matching loop** is which detections are taken. -/
theorem matchLoop_reading (c : ℕ) :
    (matchLoop cadenceMs dets c truths).map reading =
      List.zipWith readingOf truths (taken (suits cadenceMs) (dets.drop c) truths) := by
  have hread : ∀ r ∈ matchLoop cadenceMs dets c truths,
      reading r = readingOf r.1 ((r.2.map Match.pos).bind (dets[·]?)) := by
    intro r hr
    cases hm : r.2 with
    | none => simp [reading, readingOf, hm]
    | some m =>
        obtain ⟨hget, -, hlat⟩ := matchLoop_spec hr hm
        simp [reading, readingOf, hm, hget, hlat]
  calc (matchLoop cadenceMs dets c truths).map reading
      = ((matchLoop cadenceMs dets c truths).map fun r => (r.1, r.2.map Match.pos)).map
          fun r => readingOf r.1 (r.2.bind (dets[·]?)) := by
        rw [List.map_map, List.map_congr_left hread]
        rfl
    _ = List.zipWith readingOf truths (taken (suits cadenceMs) (dets.drop c) truths) := by
        rw [matchLoop_zip, taken_drop, List.zipWith_map_right, List.zip, List.map_zipWith]

/-- The aggregation of a pair depends on what is read of it only. -/
theorem Tally.add_congr {r r' : GroundTruth × Option Match} (h : reading r = reading r')
    (acc : Tally) : acc.add r = acc.add r' := by
  obtain ⟨t, m⟩ := r
  obtain ⟨t', m'⟩ := r'
  obtain ⟨rfl, hm⟩ := Prod.mk.inj h
  cases m with
  | none =>
      obtain rfl : m' = none := by simpa using hm.symm
      rfl
  | some m =>
      obtain ⟨m', rfl, hm'⟩ := Option.map_eq_some_iff.mp hm.symm
      obtain ⟨hdet, hlat⟩ := Prod.mk.inj hm'
      simp only [Tally.add, hdet, hlat, Option.isSome_some]

/-- So does that of all pairs. -/
theorem Tally.foldl_add_congr {rs rs' : List (GroundTruth × Option Match)}
    (h : rs.map reading = rs'.map reading) (acc : Tally) :
    rs.foldl Tally.add acc = rs'.foldl Tally.add acc := by
  induction rs generalizing rs' acc with
  | nil => rw [List.map_eq_nil_iff.mp h.symm]
  | cons r rs ih =>
      obtain ⟨r', rs', rfl, hr, hrs⟩ := List.map_eq_cons_iff.mp h.symm
      rw [List.foldl_cons, List.foldl_cons, ih hrs.symm, Tally.add_congr hr]

/-- **A report depends on the detections taken.** -/
theorem score_congr
    (h : taken (suits opts.cadenceMs) dets truths = taken (suits opts.cadenceMs) dets' truths) :
    score opts dets truths = score opts dets' truths := by
  have hread : (matchLoop opts.cadenceMs dets 0 truths).map reading =
      (matchLoop opts.cadenceMs dets' 0 truths).map reading := by
    rw [matchLoop_reading, matchLoop_reading, List.drop_zero, List.drop_zero, h]
  simp only [score, Tally.foldl_add_congr hread]

/-! ### False alarms -/

/-- **False alarms are ignored.** Leaving out the detections that are plausible for no truth,
wherever they stand, changes nothing in the report; and no row is detected iff no detection is
plausible for any of the truths. -/
theorem false_alarms_ignored (opts : Opts) (dets : List Detection) (truths : List GroundTruth) :
    score opts (dets.filter fun d => truths.any fun t => suits opts.cadenceMs t d) truths =
        score opts dets truths ∧
      ((∀ r ∈ (score opts dets truths).rows, r.detected = false) ↔
        ∀ t ∈ truths, ∀ d ∈ dets, suits opts.cadenceMs t d = false) := by
  constructor
  · exact score_congr (taken_filter fun t ht d hok => List.any_eq_true.mpr ⟨t, ht, hok⟩)
  · have hnone := @forall_eq_none_iff _ _ (suits opts.cadenceMs) dets 0 truths
    rw [List.drop_zero, ← matchLoop_pos, List.forall_mem_map] at hnone
    rw [← hnone, rows_score, List.forall_mem_map]
    simp

/-! ### Two parts -/

/-- What the rounds of the aggregation add to the counters does not depend on where they start. -/
theorem Tally.foldl_add_from (acc : Tally) (rs : List (GroundTruth × Option Match)) :
    let part := rs.foldl Tally.add .empty
    (rs.foldl Tally.add acc).injected = acc.injected + part.injected ∧
      (rs.foldl Tally.add acc).detected = acc.detected + part.detected ∧
      (rs.foldl Tally.add acc).physical = acc.physical + part.physical ∧
      (rs.foldl Tally.add acc).latTotal = acc.latTotal + part.latTotal ∧
      (rs.foldl Tally.add acc).latMax = max acc.latMax part.latMax ∧
      (rs.foldl Tally.add acc).rows = acc.rows ++ part.rows := by
  have hmaxZero : ∀ a : UInt64, max a 0 = a := fun a =>
    UInt64.toNat_inj.mp (by rw [UInt64.toNat_max]; simp)
  have hmaxAssoc : ∀ a b c : UInt64, max (max a b) c = max a (max b c) := fun a b c =>
    UInt64.toNat_inj.mp (by simp only [UInt64.toNat_max, Nat.max_assoc])
  induction rs using List.reverseRecOn with
  | nil => simp [Tally.empty, hmaxZero]
  | append_singleton rs r ih =>
      obtain ⟨hinj, hdet, hphys, htotal, hmax, hrows⟩ := ih
      simp only [List.foldl_append, List.foldl_cons, List.foldl_nil, Tally.add]
      rw [hinj, hdet, hphys, htotal, hmax, hrows]
      refine ⟨UInt16.add_assoc .., ?_, ?_, ?_, ?_, List.append_assoc ..⟩
      · split
        · exact UInt16.add_assoc ..
        · rfl
      · split
        · rfl
        · exact UInt16.add_assoc ..
      · split
        · exact UInt64.add_assoc ..
        · rfl
      · split
        · exact hmaxAssoc ..
        · rfl

/-- **A report in two parts.** The truths of a campaign may be scored in two parts, in order: the
second part with the detections behind the last one that the first part takes. The rows stand
behind each other, the counters and the latencies add up, and the greater one of the maximal
latencies is the maximal latency. So what is reported of a truth does not depend on later ones. -/
theorem score_in_parts (opts : Opts) (dets : List Detection) (A B : List GroundTruth) :
    let first := score opts dets A
    let second := score opts (leftover (suits opts.cadenceMs) dets A) B
    let whole := score opts dets (A ++ B)
    whole.rows = first.rows ++ second.rows ∧
      whole.injected = first.injected + second.injected ∧
      whole.detected = first.detected + second.detected ∧
      whole.physical = first.physical + second.physical ∧
      whole.latTotal = first.latTotal + second.latTotal ∧
      whole.maxLatencyMs = max first.maxLatencyMs second.maxLatencyMs := by
  intro first second whole
  have hread : (matchLoop opts.cadenceMs dets 0 (A ++ B)).map reading =
      (matchLoop opts.cadenceMs dets 0 A ++ matchLoop opts.cadenceMs
        (leftover (suits opts.cadenceMs) dets A) 0 B).map reading := by
    simp only [List.map_append, matchLoop_reading, List.drop_zero, taken_append]
    exact List.zipWith_append length_taken.symm
  obtain ⟨hinj, hdet, hphys, htotal, hmax, hrows⟩ := Tally.foldl_add_from
    ((matchLoop opts.cadenceMs dets 0 A).foldl Tally.add .empty)
    (matchLoop opts.cadenceMs (leftover (suits opts.cadenceMs) dets A) 0 B)
  simp only [whole, score, Tally.foldl_add_congr hread, List.foldl_append]
  exact ⟨hrows, hinj, hdet, hphys, htotal, hmax⟩

end FaultForge
