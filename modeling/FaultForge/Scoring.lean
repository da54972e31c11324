import FaultForge.Campaign
import FaultForge.Lib.FirstFit

/-!
# Scoring: the Matching Loop as First-Fit Pairing

`matchLoop` is the first-fit pairing of `FaultForge.Lib.FirstFit` for the test `suits`
(`matchLoop_pos`), so the rules of the library speak about the scorer: what is paired is
plausible and no detection is paired twice, and the matching is maximal exactly when the
cursor, which all fault kinds share, strands no truth behind it.

## Main results

* `matches_sound`: the pairing is increasing, plausible, and bounded by both lists.
* `matchingMaximal_iff`: when the scorer leaves no plausible detection unused.
* `missed_score`: `missed` counts the scored truths that were left unpaired.
-/

namespace FaultForge

open FirstFit

variable {cadenceMs : UInt16} {dets : List Detection} {truths : List GroundTruth}

/-! ### The test of a pair -/

/-- The circular distance of two sequence numbers. -/
def circularDist (a b : UInt16) : ℕ :=
  min (a - b).toNat (b - a).toNat

/-- `dseq_diff` is the circular distance. -/
theorem toNat_dseqDiff (a b : UInt16) : (dseqDiff a b).toNat = circularDist a b := by
  have ha : a.toNat < 2 ^ 16 := a.toNat_lt
  have hb : b.toNat < 2 ^ 16 := b.toNat_lt
  have hsigned : (a - b).toInt16.toInt =
      if 2 * (a - b).toNat < 2 ^ 16 then ((a - b).toNat : ℤ) else (a - b).toNat - 2 ^ 16 :=
    BitVec.toInt_eq_toNat_cond _
  rw [dseqDiff, UInt32.toNat_ofNat', hsigned, circularDist]
  simp only [UInt16.toNat_sub]
  split <;> omega

/-- The time test passes for every detection of a run that is shorter than `2 ^ 63`
milliseconds, since a detection that precedes its truth counts as simultaneous. -/
theorem timeOk_of_lt {t : GroundTruth} {d : Detection} (hcad : 0 < cadenceMs)
    (hspan : d.atTime.millisSince t.atTime < 2 ^ 63) : timeOk cadenceMs t d = true := by
  have hlt : cadenceMs.toNat < 2 ^ 16 := cadenceMs.toNat_lt
  have hpos : 0 < cadenceMs.toNat := UInt16.lt_iff_toNat_lt.mp hcad
  rw [timeOk, decide_eq_true_iff, Int64.lt_iff_toInt_lt, Int64.toInt_ofNat_of_lt hspan,
    Int64.toInt_neg, Int64.toInt_mul, Int64.toInt_ofNat_of_lt (by omega),
    show (2 : Int64).toInt = 2 from rfl,
    Int.bmod_eq_of_le (n := (cadenceMs.toNat : ℤ) * 2) (by omega) (by omega),
    Int.bmod_eq_of_le (by omega) (by omega)]
  omega

/-- What the test of a pair says about kind and sequence numbers. -/
theorem plausible_of_suits {t : GroundTruth} {d : Detection} (h : suits cadenceMs t d = true) :
    d.kind ∈ expectedDets t.kind ∧ circularDist d.seq t.atSeq ≤ 2 := by
  simp only [suits, Bool.and_eq_true, List.contains_iff_mem, decide_eq_true_eq] at h
  refine ⟨h.1.1, ?_⟩
  rw [← toNat_dseqDiff]
  exact UInt32.le_iff_toNat_le.mp h.1.2

/-- A truth that no detection is expected for suits none. -/
theorem expectedDets_of_suits {t : GroundTruth} {d : Detection} (h : suits cadenceMs t d = true) :
    (expectedDets t.kind).isEmpty = false := by
  rw [List.isEmpty_eq_false_iff]
  exact List.ne_nil_of_mem (plausible_of_suits h).1

/-! ### The loop is a pairing -/

/-- Where the scan stops. -/
theorem scanFrom_pos (t : GroundTruth) (j : ℕ) (ds : List Detection) :
    (scanFrom cadenceMs t j ds).map Match.pos =
      (ds.findIdx? (suits cadenceMs t)).map (j + ·) := by
  induction ds generalizing j with
  | nil => rfl
  | cons d ds ih =>
      by_cases h : suits cadenceMs t d = true
      · simp [scanFrom, h, List.findIdx?_cons]
      · rw [scanFrom, if_neg h, ih, List.findIdx?_cons, if_neg h, Option.map_map]
        exact congrArg (fun f => Option.map f _) (funext fun i => by simp; omega)

/-- What the scan stops at. -/
theorem scanFrom_spec {t : GroundTruth} {j : ℕ} {ds : List Detection} {m : Match}
    (h : scanFrom cadenceMs t j ds = some m) :
    j ≤ m.pos ∧ ds[m.pos - j]? = some m.det ∧ suits cadenceMs t m.det = true ∧
      m.latencyMs = UInt64.ofNat (m.det.atTime.millisSince t.atTime) := by
  induction ds generalizing j with
  | nil => simp [scanFrom] at h
  | cons d ds ih =>
      by_cases hd : suits cadenceMs t d = true
      · rw [scanFrom, if_pos hd] at h
        obtain rfl := Option.some.inj h
        simp [hd]
      · rw [scanFrom, if_neg hd] at h
        obtain ⟨hle, hget, hsuits, hlat⟩ := ih h
        refine ⟨by omega, ?_, hsuits, hlat⟩
        rw [show m.pos - j = m.pos - (j + 1) + 1 by omega]
        exact hget

/-- **The matching loop is a first-fit pairing.** -/
theorem matchLoop_pos (c : ℕ) :
    (matchLoop cadenceMs dets c truths).map (fun r => r.2.map Match.pos) =
      pairing (suits cadenceMs) dets c truths := by
  induction truths generalizing c with
  | nil => rfl
  | cons t ts ih =>
      have hscan : (scanFrom cadenceMs t c (dets.drop c)).map Match.pos =
          scan (suits cadenceMs) dets c t := scanFrom_pos t c (dets.drop c)
      rw [matchLoop]
      split
      · next hempty =>
        -- nothing is expected for a physical fault, so the scan would find nothing
        have hnone : scan (suits cadenceMs) dets c t = none := by
          cases hs : scan (suits cadenceMs) dets c t with
          | none => rfl
          | some j =>
              obtain ⟨-, ⟨d, -, hd⟩, -⟩ := scan_eq_some hs
              exact absurd hempty (by simp [expectedDets_of_suits hd])
        rw [pairing_cons_none hnone, List.map_cons, ih]
        rfl
      · split
        · next m hm =>
          rw [hm] at hscan
          rw [pairing_cons_some hscan.symm, List.map_cons, ih]
          rfl
        · next hm =>
          rw [hm] at hscan
          rw [pairing_cons_none hscan.symm, List.map_cons, ih]
          rfl

/-- The loop goes through the truths in order. -/
theorem matchLoop_fst (c : ℕ) : (matchLoop cadenceMs dets c truths).map Prod.fst = truths := by
  induction truths generalizing c with
  | nil => rfl
  | cons t ts ih =>
      rw [matchLoop]
      split
      · rw [List.map_cons, ih]
      · split <;> rw [List.map_cons, ih]

/-- There is one pair for each truth. -/
theorem length_matchLoop (c : ℕ) :
    (matchLoop cadenceMs dets c truths).length = truths.length := by
  rw [← List.length_map (f := Prod.fst), matchLoop_fst]

/-- The truths with the positions of their matches, as the library pairs them. -/
theorem matchLoop_zip (c : ℕ) :
    (matchLoop cadenceMs dets c truths).map (fun r => (r.1, r.2.map Match.pos)) =
      truths.zip (pairing (suits cadenceMs) dets c truths) := by
  rw [← matchLoop_pos, ← List.zip_map', matchLoop_fst]

/-- What a truth is paired with. -/
theorem matchLoop_spec {c : ℕ} {r : GroundTruth × Option Match} {m : Match}
    (hr : r ∈ matchLoop cadenceMs dets c truths) (hm : r.2 = some m) :
    dets[m.pos]? = some m.det ∧ suits cadenceMs r.1 m.det = true ∧
      m.latencyMs = UInt64.ofNat (m.det.atTime.millisSince r.1.atTime) := by
  induction truths generalizing c with
  | nil => simp [matchLoop] at hr
  | cons t ts ih =>
      rw [matchLoop] at hr
      split at hr
      · rcases List.mem_cons.mp hr with rfl | hr
        · simp at hm
        · exact ih hr
      · split at hr
        · next m' hm' =>
          rcases List.mem_cons.mp hr with rfl | hr
          · obtain rfl : m' = m := by simpa using hm
            obtain ⟨hle, hget, hsuits, hlat⟩ := scanFrom_spec hm'
            rw [List.getElem?_drop, Nat.add_sub_cancel' hle] at hget
            exact ⟨hget, hsuits, hlat⟩
          · exact ih hr
        · rcases List.mem_cons.mp hr with rfl | hr
          · simp at hm
          · exact ih hr

/-- The positions of the pairing, and how many truths are paired. -/
theorem countP_isSome_matchLoop (c : ℕ) :
    (matchLoop cadenceMs dets c truths).countP (fun r => r.2.isSome) =
      (pairing (suits cadenceMs) dets c truths).reduceOption.length := by
  rw [← matchLoop_pos, List.reduceOption_length_eq, List.countP_eq_length_filter,
    List.filter_map, List.length_map]
  congr 2
  funext r
  simp

/-- **Soundness of the pairing.** The matches go through the truths in order. The
positions of the paired detections strictly increase along them; each paired detection is
of a kind that the truth leads to expect, at a circular distance of at most 2; and there
are no more pairs than detections, nor than truths with an expectation. -/
theorem matches_sound (cadenceMs : UInt16) (dets : List Detection) (truths : List GroundTruth) :
    let ms := matchLoop cadenceMs dets 0 truths
    ms.map Prod.fst = truths ∧
    (ms.filterMap fun r => r.2.map Match.pos).Pairwise (· < ·) ∧
    (∀ r ∈ ms, ∀ m, r.2 = some m → dets[m.pos]? = some m.det ∧
      m.det.kind ∈ expectedDets r.1.kind ∧ circularDist m.det.seq r.1.atSeq ≤ 2) ∧
    ms.countP (fun r => r.2.isSome) ≤
      min dets.length (truths.countP fun t => !(expectedDets t.kind).isEmpty) := by
  intro ms
  refine ⟨matchLoop_fst 0, ?_, fun r hr m hm => ?_, ?_⟩
  · have hpos : (ms.filterMap fun r => r.2.map Match.pos) =
        (pairing (suits cadenceMs) dets 0 truths).reduceOption := by
      rw [← matchLoop_pos, List.reduceOption, List.filterMap_map]
      rfl
    rw [hpos]
    exact pairing_increasing.1
  · obtain ⟨hget, hsuits, -⟩ := matchLoop_spec hr hm
    exact ⟨hget, plausible_of_suits hsuits⟩
  · rw [countP_isSome_matchLoop]
    refine le_min length_taken_le_length (length_taken_le_countP fun t d h => ?_)
    simp [expectedDets_of_suits h]

/-! ### Maximality -/

/-- The matching is maximal: when a truth with an expectation is left unpaired, every
detection that passes the loop's test for it is paired with another truth. -/
def MatchingMaximal (cadenceMs : UInt16) (dets : List Detection) (truths : List GroundTruth) :
    Prop :=
  let ms := matchLoop cadenceMs dets 0 truths
  ∀ r ∈ ms, (expectedDets r.1.kind).isEmpty = false → r.2 = none →
    ∀ (j : ℕ) d, dets[j]? = some d → suits cadenceMs r.1 d = true →
      ∃ r' ∈ ms, ∃ m, r'.2 = some m ∧ m.pos = j

/-- The matching is maximal as a pairing of the library. -/
theorem matchingMaximal_iff_maximal :
    MatchingMaximal cadenceMs dets truths ↔ Maximal (suits cadenceMs) dets truths := by
  have htaken : ∀ j, some j ∈ pairing (suits cadenceMs) dets 0 truths ↔
      ∃ r' ∈ matchLoop cadenceMs dets 0 truths, ∃ m, r'.2 = some m ∧ m.pos = j := by
    intro j
    rw [← matchLoop_pos]
    simp [List.mem_map]
  have hrow : ∀ i : ℕ, (truths[i]? = ((matchLoop cadenceMs dets 0 truths)[i]?).map Prod.fst) ∧
      (pairing (suits cadenceMs) dets 0 truths)[i]? =
        ((matchLoop cadenceMs dets 0 truths)[i]?).map fun r => r.2.map Match.pos := by
    intro i
    rw [← matchLoop_pos, List.getElem?_map, ← List.getElem?_map, matchLoop_fst]
    exact ⟨rfl, rfl⟩
  constructor
  · intro hmax i t ht hnone j d hd hsuits
    obtain ⟨hfst, hsnd⟩ := hrow i
    cases hr : (matchLoop cadenceMs dets 0 truths)[i]? with
    | none => simp [hr, ht] at hfst
    | some r =>
        rw [ht, hr] at hfst
        obtain rfl : t = r.1 := by simpa using hfst
        rw [hnone, hr] at hsnd
        have hr2 : r.2 = none := by simpa using hsnd
        exact (htaken j).mpr (hmax r (List.mem_of_getElem? hr) (expectedDets_of_suits hsuits)
          hr2 j d hd hsuits)
  · intro hmax r hr _ hr2 j d hd hsuits
    obtain ⟨i, hi⟩ := List.mem_iff_getElem?.mp hr
    obtain ⟨hfst, hsnd⟩ := hrow i
    rw [hi] at hfst hsnd
    exact (htaken j).mp (hmax i r.1 (by simpa using hfst) (by simpa [hr2] using hsnd) j d hd
      hsuits)

/-- **When the scorer leaves no plausible detection unused**: the matching is maximal iff
no truth comes to nothing while a detection that the cursor has jumped over passes the
test for it. -/
theorem matchingMaximal_iff (cadenceMs : UInt16) (dets : List Detection)
    (truths : List GroundTruth) :
    MatchingMaximal cadenceMs dets truths ↔ NoneStranded (suits cadenceMs) [] dets truths :=
  matchingMaximal_iff_maximal.trans maximal_iff_noneStranded

/-- When no two truths are crossed, the matching is maximal: it suffices that an earlier
truth suits every detection that a later truth suits before one of its own. -/
theorem matchingMaximal_of_uncrossed
    (h : truths.Pairwise fun t' t => dets.Pairwise fun d d' =>
      suits cadenceMs t' d' = true → suits cadenceMs t d = true → suits cadenceMs t' d = true) :
    MatchingMaximal cadenceMs dets truths :=
  matchingMaximal_iff_maximal.mpr
    (maximal_iff_noneStranded.mpr (noneStranded_of_uncrossed (by simp) h))

/-- The calibration set of the scorer's own test: seven detections for seven faults, two
of them in the other order. -/
def calibrationDets : List Detection :=
  [(.gap, 11), (.late, 21), (.replay, 33), (.crc, 41), (.burst, 55), (.crc, 66),
    (.burst, 77)].map fun d => ⟨d.1, d.2, ⟨0⟩, 0⟩

/-- Its truths. -/
def calibrationTruths : List GroundTruth :=
  [(faultDrop, 10, 1), (faultDelay, 21, 2), (faultReplay, 33, 3), (faultBitflip, 41, 4),
    (faultBitflip, 66, 5), (faultByte, 55, 6), (faultBurst, 77, 7)].map
      fun t => ⟨t.2.2, t.1, t.2.1, 0, ⟨0⟩⟩

/-- The BITFLIP at 66 takes the CRC failure at 66 and jumps over the burst at 55, which
the BYTE at 55 then cannot reach. -/
theorem calibration_not_maximal : ¬ MatchingMaximal 5 calibrationDets calibrationTruths := by
  intro hmax
  have hpos : (matchLoop 5 calibrationDets 0 calibrationTruths).map (fun r => r.2.map Match.pos) =
      [some 0, some 1, some 2, some 3, some 5, none, some 6] := by decide +kernel
  obtain ⟨r', hr', m, hm, hmpos⟩ := hmax (⟨6, faultByte, 55, 0, ⟨0⟩⟩, none) (by decide +kernel)
    (by decide) rfl 4 ⟨.burst, 55, ⟨0⟩, 0⟩ rfl (by decide +kernel)
  have hmem : some 4 ∈ (matchLoop 5 calibrationDets 0 calibrationTruths).map
      (fun r => r.2.map Match.pos) :=
    List.mem_map.mpr ⟨r', hr', by rw [hm, ← hmpos]; rfl⟩
  rw [hpos] at hmem
  simp at hmem

/-! ### What is missed -/

/-- Every truth is paired, physical, or missed. -/
theorem length_eq_of_scored (rs : List (GroundTruth × Option Match))
    (h : ∀ r ∈ rs, r.2.isSome = true → (expectedDets r.1.kind).isEmpty = false) :
    rs.length = rs.countP (fun r => r.2.isSome) +
      rs.countP (fun r => (expectedDets r.1.kind).isEmpty) +
      rs.countP (fun r => r.2.isNone && !(expectedDets r.1.kind).isEmpty) := by
  induction rs with
  | nil => rfl
  | cons r rs ih =>
      have hr := h r (List.mem_cons_self ..)
      have hrest := ih fun r hr => h r (List.mem_cons_of_mem _ hr)
      simp only [List.length_cons, List.countP_cons]
      cases hm : r.2 with
      | none => cases he : (expectedDets r.1.kind).isEmpty <;> simp <;> omega
      | some m =>
          have he := hr (by rw [hm]; rfl)
          simp [he]
          omega

/-- **What is missed**: as long as the counters do not wrap, `missed` counts the truths
with an expectation that were left unpaired. -/
theorem missed_score (opts : Opts) (hlen : truths.length < 2 ^ 16) :
    (score opts dets truths).missed.toNat =
      (matchLoop opts.cadenceMs dets 0 truths).countP
        (fun r => r.2.isNone && !(expectedDets r.1.kind).isEmpty) := by
  obtain ⟨hinj, hdet, hphys⟩ := foldl_add_counters (matchLoop opts.cadenceMs dets 0 truths)
    Tally.empty (by rw [length_matchLoop]; exact (Nat.zero_add _).trans_lt hlen) le_rfl le_rfl
  have hsplit := length_eq_of_scored (matchLoop opts.cadenceMs dets 0 truths)
    fun r hr hsome => by
      obtain ⟨m, hm⟩ := Option.isSome_iff_exists.mp hsome
      exact expectedDets_of_suits (matchLoop_spec hr hm).2.1
  simp only [score, toNat_saturatingSub, hinj, hdet, hphys]
  simp only [Tally.empty, UInt16.toNat_zero]
  omega

end FaultForge
