import Mathlib.Algebra.Order.BigOperators.Group.List
import Mathlib.Data.Rat.Floor
import Mathlib.Tactic.NormNum
import FaultForge.Chronology
import FaultForge.Elapsed
import FaultForge.Lib.Floating
import FaultForge.Report

/-!
# The Figures of a Report

Two figures of a report are computed in floating point: the mean latency, a quotient of two
integers, and the detection rate, which `print` scales to percent. Every operation rounds
(`FaultForge.Lib.Floating`), so neither figure is the exact one; but the integers of a campaign of
less than `2 ^ 37` milliseconds are small enough to be converted exactly, and then the figures
keep what a reader relies on: the mean lies between the smallest and the largest latency and is
zero only if all of them are, and the rate is 100 only if every fault was detected.

The doubles here are rationals: none of the operations overflows, underflows or divides by zero.

## Main results

* `toNat_latTotal`: the sum of the latencies.
* `figures_of_report`: what the two figures tell.
-/

namespace FaultForge

open Floating

/-! ### Doubles -/

/-- Rounding to a double. -/
def toF64 (x : ℚ) : ℚ :=
  toNearest 53 x

/-- Rounding is monotone. -/
theorem toF64_mono : Monotone toF64 :=
  toNearest_mono (by decide)

/-- Small integers are not rounded. -/
theorem toF64_natCast {n : ℕ} (hn : n < 2 ^ 53) : toF64 n = n :=
  toNearest_natCast hn

/-- The relative error of a rounding. -/
theorem abs_toF64_sub_le (x : ℚ) : |toF64 x - x| ≤ |x| / 2 ^ 53 :=
  abs_toNearest_sub_le 53 x

/-- A quotient of two integers, `a as f64 / b as f64`. -/
def quotF64 (a b : ℕ) : ℚ :=
  toF64 (toF64 a / toF64 b)

/-- The quotient of small integers is rounded once. -/
theorem quotF64_eq {a b : ℕ} (ha : a < 2 ^ 53) (hb : b < 2 ^ 53) :
    quotF64 a b = toF64 (a / b) := by
  rw [quotF64, toF64_natCast ha, toF64_natCast hb]

/-- The mean latency, `0.0` without a detection. -/
def CampaignResult.avgLatencyMs (res : CampaignResult) : ℚ :=
  if 0 < res.detected then quotF64 res.latTotal.toNat res.detected.toNat else 0

/-- The detection rate that `print` shows, if it shows one. -/
def rateF64 (res : CampaignResult) : Option ℚ :=
  if 0 < res.injected then some (toF64 (quotF64 res.detected.toNat res.injected.toNat * 100))
  else none

/-! ### The sum of the latencies -/

variable {opts : Opts} {dets : List Detection} {truths : List GroundTruth}

/-- The latencies of the detected faults. -/
def latencies (res : CampaignResult) : List ℕ :=
  (res.rows.filter fun r => r.detected).map fun r => r.latencyMs.toNat

/-- One round of the aggregation adds the latency of its row. -/
theorem Tally.latTotal_add (acc : Tally) (r : GroundTruth × Option Match)
    (hscored : r.2.isSome = true → (expectedDets r.1.kind).isEmpty = false) :
    (acc.add r).latTotal = acc.latTotal + (rowOf r).latencyMs := by
  obtain ⟨t, m⟩ := r
  cases m with
  | none => simp [Tally.add, rowOf]
  | some m =>
      have h := hscored rfl
      simp [Tally.add, rowOf, show (expectedDets t.kind).isEmpty = false from h]

/-- The aggregation adds up the latencies of all rows, modulo the width of the counter. -/
theorem Tally.latTotal_foldl_add (rs : List (GroundTruth × Option Match)) (acc : Tally)
    (hscored : ∀ r ∈ rs, r.2.isSome = true → (expectedDets r.1.kind).isEmpty = false) :
    (rs.foldl Tally.add acc).latTotal = acc.latTotal +
      UInt64.ofNat (rs.map fun r => (rowOf r).latencyMs.toNat).sum := by
  induction rs generalizing acc with
  | nil => simp
  | cons r rs ih =>
      rw [List.foldl_cons, ih _ fun r' hr' => hscored r' (List.mem_cons_of_mem _ hr'),
        Tally.latTotal_add acc r (hscored r (List.mem_cons_self ..)), List.map_cons,
        List.sum_cons, UInt64.ofNat_add, UInt64.ofNat_toNat, UInt64.add_assoc]

/-- A fault that is not detected has latency zero. -/
theorem latencyMs_of_not_detected {r : Row} (hr : r ∈ (score opts dets truths).rows)
    (hdet : r.detected = false) : r.latencyMs = 0 := by
  rw [rows_score] at hr
  obtain ⟨x, -, rfl⟩ := List.mem_map.mp hr
  rw [detected_rowOf, Option.isSome_eq_false_iff, Option.isNone_iff_eq_none] at hdet
  simp [rowOf, hdet]

/-- So the latencies of all rows add up to those of the detected faults. -/
theorem sum_latencies :
    ((score opts dets truths).rows.map fun r => r.latencyMs.toNat).sum =
      (latencies (score opts dets truths)).sum := by
  have hzero := fun r hr => @latencyMs_of_not_detected opts dets truths r hr
  rw [latencies]
  generalize (score opts dets truths).rows = rows at hzero
  induction rows with
  | nil => rfl
  | cons r rows ih =>
      have ih := ih fun r' hr' => hzero r' (List.mem_cons_of_mem _ hr')
      cases hdet : r.detected with
      | true => simp [hdet, ih]
      | false => simp [hdet, ih, hzero r (List.mem_cons_self ..) hdet]

/-- **The sum of the latencies**, if the counter can hold it. -/
theorem toNat_latTotal (hsum : (latencies (score opts dets truths)).sum < 2 ^ 64) :
    (score opts dets truths).latTotal.toNat = (latencies (score opts dets truths)).sum := by
  have htotal := Tally.latTotal_foldl_add (matchLoop opts.cadenceMs dets 0 truths) .empty
    fun _ => scored_of_paired
  rw [← sum_latencies] at hsum ⊢
  rw [rows_score, List.map_map] at hsum ⊢
  refine (congrArg UInt64.toNat htotal).trans ?_
  rw [show Tally.empty.latTotal = 0 from rfl, UInt64.zero_add]
  exact UInt64.toNat_ofNat_of_lt' hsum

/-- No latency exceeds the maximal one. -/
theorem latency_le_max {l : ℕ} (hl : l ∈ latencies (score opts dets truths)) :
    l ≤ (score opts dets truths).maxLatencyMs.toNat := by
  obtain ⟨-, hmax, -⟩ := Tally.foldl_add_eq (matchLoop opts.cadenceMs dets 0 truths) .empty
    fun _ => scored_of_paired
  obtain ⟨r, hr, rfl⟩ := List.mem_map.mp hl
  have hrow := List.mem_of_mem_filter hr
  rw [rows_score] at hrow
  obtain ⟨x, hx, rfl⟩ := List.mem_map.mp hrow
  have hbound := (List.max?_eq_some_iff.mp (@List.max?_cons' _ Tally.empty.latMax.toNat _
    ((matchLoop opts.cadenceMs dets 0 truths).map fun r => (rowOf r).latencyMs.toNat))).2
  exact (hbound _ (List.mem_cons_of_mem _ (List.mem_map.mpr ⟨x, hx, rfl⟩))).trans hmax.ge

/-- There are as many latencies as detected faults. -/
theorem length_latencies (hlen : truths.length < 2 ^ 16) :
    (score opts dets truths).detected.toNat = (latencies (score opts dets truths)).length := by
  rw [(counters_score hlen).2.1, latencies, List.length_map, List.countP_eq_length_filter]

/-! ### The mean of a list -/

/-- The smallest of some numbers. -/
theorem exists_minimum {ls : List ℕ} (hne : ls ≠ []) : ∃ lo ∈ ls, ∀ l ∈ ls, lo ≤ l := by
  obtain ⟨lo, hlo⟩ := Option.ne_none_iff_exists'.mp fun h => hne (List.min?_eq_none_iff.mp h)
  exact ⟨lo, List.min?_eq_some_iff.mp hlo⟩

/-- The largest of some numbers. -/
theorem exists_maximum {ls : List ℕ} (hne : ls ≠ []) : ∃ hi ∈ ls, ∀ l ∈ ls, l ≤ hi := by
  obtain ⟨hi, hhi⟩ := Option.ne_none_iff_exists'.mp fun h => hne (List.max?_eq_none_iff.mp h)
  exact ⟨hi, List.max?_eq_some_iff.mp hhi⟩

/-- **The mean, as it is computed**, lies between two of the latencies: they are integers that
rounding leaves alone, and rounding is monotone. -/
theorem mean_between {ls : List ℕ} (hne : ls ≠ []) (hsum : ls.sum < 2 ^ 53)
    (hlen : ls.length < 2 ^ 53) :
    (∃ lo ∈ ls, (lo : ℚ) ≤ quotF64 ls.sum ls.length) ∧
      ∃ hi ∈ ls, quotF64 ls.sum ls.length ≤ hi := by
  have hpos : (0 : ℚ) < ls.length := Nat.cast_pos.mpr (List.length_pos_iff.mpr hne)
  have hexact : ∀ l ∈ ls, toF64 l = l := fun l hl =>
    toF64_natCast ((List.le_sum_of_mem hl).trans_lt hsum)
  rw [quotF64_eq hsum hlen]
  constructor
  · obtain ⟨lo, hmem, hlo⟩ := exists_minimum hne
    have hle : ls.length * lo ≤ ls.sum := by simpa using List.card_nsmul_le_sum ls lo hlo
    refine ⟨lo, hmem, ?_⟩
    rw [← hexact lo hmem]
    refine toF64_mono ?_
    rw [le_div_iff₀ hpos, mul_comm]
    exact_mod_cast hle
  · obtain ⟨hi, hmem, hhi⟩ := exists_maximum hne
    have hle : ls.sum ≤ ls.length * hi := by simpa using List.sum_le_card_nsmul ls hi hhi
    refine ⟨hi, hmem, ?_⟩
    rw [← hexact hi hmem]
    refine toF64_mono ?_
    rw [div_le_iff₀ hpos, mul_comm]
    exact_mod_cast hle

/-! ### The rate -/

/-- A share of `n - 1` of `n` is that far from a whole that rounding twice does not reach it. -/
theorem percent_lt_hundred {d n : ℕ} (hdn : d < n) (hn : n < 2 ^ 16) :
    toF64 (toF64 (d / n) * 100) < 100 := by
  have hpos : (0 : ℚ) < n := Nat.cast_pos.mpr (Nat.zero_lt_of_lt hdn)
  have hround : ∀ x : ℚ, 0 ≤ x → toF64 x ≤ x * (1 + 1 / 2 ^ 53) := by
    intro x hx
    have herr := (abs_le.mp (abs_toF64_sub_le x)).2
    rw [abs_of_nonneg hx] at herr
    linarith
  have hshare : (d / n : ℚ) ≤ 1 - 1 / 2 ^ 16 := by
    rw [div_le_iff₀ hpos]
    have hd : (d : ℚ) + 1 ≤ n := by exact_mod_cast hdn
    have hn : (n : ℚ) ≤ 2 ^ 16 := by exact_mod_cast hn.le
    linarith
  have hnonneg : (0 : ℚ) ≤ d / n := div_nonneg (Nat.cast_nonneg d) hpos.le
  have hquot : toF64 (d / n) ≤ (1 - 1 / 2 ^ 16) * (1 + 1 / 2 ^ 53) :=
    (hround _ hnonneg).trans (mul_le_mul_of_nonneg_right hshare (by norm_num))
  have hquotNonneg : 0 ≤ toF64 (d / n) := toNearest_nonneg (by decide) hnonneg
  calc toF64 (toF64 (d / n) * 100)
      ≤ toF64 (d / n) * 100 * (1 + 1 / 2 ^ 53) := hround _ (by positivity)
    _ ≤ (1 - 1 / 2 ^ 16) * (1 + 1 / 2 ^ 53) * 100 * (1 + 1 / 2 ^ 53) := by gcongr
    _ < 100 := by norm_num

/-- **The printed rate** is 100 iff all of the faults are detected. -/
theorem rateF64_spec {res : CampaignResult} (hle : res.detected ≤ res.injected) {r : ℚ}
    (hr : rateF64 res = some r) :
    0 ≤ r ∧ r ≤ 100 ∧ (r = 100 ↔ res.detected = res.injected) := by
  rw [rateF64] at hr
  obtain ⟨hpos, hr⟩ := Option.ite_none_right_eq_some.mp hr
  obtain rfl := Option.some.inj hr
  have hsmall : ∀ n : UInt16, n.toNat < 2 ^ 53 := fun n => n.toNat_lt.trans (by norm_num)
  rw [quotF64_eq (hsmall _) (hsmall _)]
  have hnonneg : (0 : ℚ) ≤ toF64 (toF64 (res.detected.toNat / res.injected.toNat) * 100) :=
    toNearest_nonneg (by decide) (mul_nonneg (toNearest_nonneg (by decide) (by positivity))
      (by norm_num))
  refine ⟨hnonneg, ?_⟩
  obtain heq | hne := eq_or_ne res.detected res.injected
  · have hone : (res.injected.toNat / res.injected.toNat : ℚ) = 1 :=
      div_self (Nat.cast_ne_zero.mpr (UInt16.lt_iff_toNat_lt.mp hpos).ne')
    have hhundred : toF64 (toF64 (res.detected.toNat / res.injected.toNat) * 100) = 100 := by
      rw [heq, hone, show (1 : ℚ) = (1 : ℕ) by norm_num, toF64_natCast (by norm_num),
        show ((1 : ℕ) : ℚ) * 100 = (100 : ℕ) by norm_num, toF64_natCast (by norm_num)]
      norm_num
    exact ⟨hhundred.le, iff_of_true hhundred heq⟩
  · have hlt : res.detected.toNat < res.injected.toNat :=
      (UInt16.le_iff_toNat_le.mp hle).lt_of_ne fun h => hne (UInt16.toNat_inj.mp h)
    have hrate := percent_lt_hundred hlt res.injected.toNat_lt
    exact ⟨hrate.le, iff_of_false hrate.ne hne⟩

/-! ### Reports -/

/-- Any two readings of the clock lie less than `2 ^ 37` milliseconds apart, some four years. -/
def BriefRun (arrivals : List (Clock × DuFrame)) : Prop :=
  ∀ x ∈ arrivals, ∀ y ∈ arrivals, ∀ j k, (x.1 j).millisSince (y.1 k) < 2 ^ 37

/-- The times of what a campaign records are readings of the clock. -/
theorem times_are_readings (cadenceMs : UInt16) (arrivals : List (Clock × DuFrame)) :
    (∀ e ∈ (receive (.new cadenceMs) [] arrivals).1.detections,
        ∃ x ∈ arrivals, ∃ j, x.1 j = e.atTime) ∧
      ∀ t ∈ (receive (.new cadenceMs) [] arrivals).2, ∃ x ∈ arrivals, ∃ j, x.1 j = t.atTime := by
  let R : Instant → Instant → Prop := fun a a' => a = a' ∧ ∃ x ∈ arrivals, ∃ j, x.1 j = a
  have hR : AsFarApart R := by
    rintro a _ b _ ⟨rfl, -⟩ ⟨rfl, -⟩
    rfl
  have harrivals : List.Forall₂ (fun x y => x.2 = y.2 ∧ ∀ k, R (x.1 k) (y.1 k))
      arrivals arrivals :=
    List.forall₂_same.mpr fun x hx => ⟨rfl, fun k => ⟨rfl, x, hx, k, rfl⟩⟩
  obtain ⟨hdut, htruths⟩ := (LikeDut.new cadenceMs).receive hR .nil harrivals
  exact ⟨fun e he => (List.forall₂_same.mp hdut.detections e he).atTime.2,
    fun t ht => (List.forall₂_same.mp htruths t ht).atTime.2⟩

/-- So no latency exceeds the time that the campaign takes. -/
theorem latency_lt {arrivals : List (Clock × DuFrame)} (hspan : BriefRun arrivals) {l : ℕ}
    (hl : l ∈ latencies (run opts arrivals)) : l < 2 ^ 37 := by
  obtain ⟨r, hr, rfl⟩ := List.mem_map.mp hl
  obtain ⟨hrow, hdet⟩ := List.mem_filter.mp hr
  rw [run, rows_score] at hrow
  obtain ⟨x, hx, rfl⟩ := List.mem_map.mp hrow
  rw [detected_rowOf] at hdet
  obtain ⟨m, hm⟩ := Option.isSome_iff_exists.mp hdet
  obtain ⟨hget, -, hlat⟩ := matchLoop_spec hx hm
  have htruth := List.mem_map_of_mem (f := Prod.fst) hx
  rw [matchLoop_fst] at htruth
  obtain ⟨hdets, htruths⟩ := times_are_readings opts.cadenceMs arrivals
  obtain ⟨y, hy, j, hdet⟩ := hdets _ (List.mem_of_getElem? hget)
  obtain ⟨z, hz, k, htold⟩ := htruths _ htruth
  have hshort := hspan y hy z hz j k
  rw [hdet, htold] at hshort
  have hrowLat : (rowOf x).latencyMs = m.latencyMs := by simp [rowOf, hm]
  rw [hrowLat, hlat, UInt64.toNat_ofNat_of_lt' (hshort.trans (by norm_num))]
  exact hshort

/-- The integers that the mean latency is computed from are small, and they are the sum and the
number of the latencies. -/
theorem avgLatencyMs_eq {arrivals : List (Clock × DuFrame)} (hspan : BriefRun arrivals)
    (hlen : (receive (.new opts.cadenceMs) [] arrivals).2.length < 2 ^ 16) :
    (latencies (run opts arrivals)).sum < 2 ^ 53 ∧
      (latencies (run opts arrivals)).length < 2 ^ 53 ∧
      (run opts arrivals).avgLatencyMs =
        quotF64 (latencies (run opts arrivals)).sum (latencies (run opts arrivals)).length := by
  have hcount : (run opts arrivals).detected.toNat = (latencies (run opts arrivals)).length :=
    length_latencies hlen
  have hshort : (latencies (run opts arrivals)).length < 2 ^ 16 := by
    rw [← hcount]
    exact (run opts arrivals).detected.toNat_lt
  have hsum : (latencies (run opts arrivals)).sum < 2 ^ 53 := by
    have hle := List.sum_le_card_nsmul _ _ fun l hl => (@latency_lt opts _ hspan l hl).le
    rw [nsmul_eq_mul, Nat.cast_id] at hle
    omega
  refine ⟨hsum, by omega, ?_⟩
  have htotal : (run opts arrivals).latTotal.toNat = (latencies (run opts arrivals)).sum :=
    toNat_latTotal (hsum.trans (by norm_num))
  rw [CampaignResult.avgLatencyMs, hcount, htotal]
  split
  · rfl
  · next h =>
      have hnil : latencies (run opts arrivals) = [] := by
        rw [UInt16.lt_iff_toNat_lt, hcount] at h
        exact List.length_eq_zero_iff.mp (Nat.eq_zero_of_not_pos h)
      rw [hnil]
      simp [quotF64, toF64]

/-- The exact mean of the latencies, zero without a detection. -/
def meanLatency (res : CampaignResult) : ℚ :=
  (latencies res).sum / (latencies res).length

/-- **The figures of a report.** In a campaign of less than `2 ^ 37` milliseconds and less than
`2 ^ 16` faults, the mean latency that is reported is the exact one up to a relative error of
`2 ^ -53`; it is no smaller than a lower bound of the latencies, no larger than the maximal
latency of the report, and zero iff all latencies are zero. The printed rate is between 0 and 100,
and it is 100 iff every row is detected. -/
theorem figures_of_report (opts : Opts) {arrivals : List (Clock × DuFrame)}
    (hspan : BriefRun arrivals)
    (hlen : (receive (.new opts.cadenceMs) [] arrivals).2.length < 2 ^ 16) :
    |(run opts arrivals).avgLatencyMs - meanLatency (run opts arrivals)| ≤
        meanLatency (run opts arrivals) / 2 ^ 53 ∧
      (∀ lo : ℕ, latencies (run opts arrivals) ≠ [] →
        (∀ l ∈ latencies (run opts arrivals), lo ≤ l) → lo ≤ (run opts arrivals).avgLatencyMs) ∧
      (run opts arrivals).avgLatencyMs ≤ (run opts arrivals).maxLatencyMs.toNat ∧
      ((run opts arrivals).avgLatencyMs = 0 ↔ ∀ l ∈ latencies (run opts arrivals), l = 0) ∧
      ∀ r, rateF64 (run opts arrivals) = some r →
        0 ≤ r ∧ r ≤ 100 ∧ (r = 100 ↔ ∀ row ∈ (run opts arrivals).rows, row.detected = true) := by
  obtain ⟨hsum, hcount, havg⟩ := avgLatencyMs_eq hspan hlen
  have hround : (run opts arrivals).avgLatencyMs = toF64 (meanLatency (run opts arrivals)) := by
    rw [havg, quotF64_eq hsum hcount, meanLatency]
  have hnonneg : 0 ≤ meanLatency (run opts arrivals) :=
    div_nonneg (Nat.cast_nonneg _) (Nat.cast_nonneg _)
  refine ⟨?_, fun lo hne hlo => ?_, ?_, ?_, fun r hr => ?_⟩
  · have herr := abs_toF64_sub_le (meanLatency (run opts arrivals))
    rwa [abs_of_nonneg hnonneg, ← hround] at herr
  · obtain ⟨⟨l, hl, hle⟩, -⟩ := mean_between hne hsum hcount
    rw [havg]
    exact (Nat.cast_le.mpr (hlo l hl)).trans hle
  · obtain hnil | hne := eq_or_ne (latencies (run opts arrivals)) []
    · rw [hround, meanLatency, hnil]
      simp [toF64]
    · obtain ⟨-, l, hl, hle⟩ := mean_between hne hsum hcount
      rw [havg]
      exact hle.trans (Nat.cast_le.mpr (latency_le_max hl))
  · rw [hround, toF64, toNearest_eq_zero_iff (by decide), meanLatency, div_eq_zero_iff,
      Nat.cast_eq_zero, Nat.cast_eq_zero, List.sum_eq_zero_iff, List.length_eq_zero_iff]
    exact or_iff_left_of_imp fun hnil => by simp [hnil]
  · obtain ⟨hinj, hdet, -⟩ := @counters_score opts
      (receive (.new opts.cadenceMs) [] arrivals).1.detections _ hlen
    have hall : (run opts arrivals).detected = (run opts arrivals).injected ↔
        ∀ row ∈ (run opts arrivals).rows, row.detected = true := by
      rw [← UInt16.toNat_inj, run, hinj, hdet, List.countP_eq_length]
    rw [← hall]
    refine rateF64_spec (UInt16.le_iff_toNat_le.mpr ?_) hr
    rw [run, hinj, hdet]
    exact List.countP_le_length

/-- A run of three frames within six milliseconds is brief. -/
theorem briefRun_lostFrame : BriefRun lostFrame := by
  simp [BriefRun, lostFrame, sensorAt, Instant.millisSince]

/-- The only latency of the lost frame is its mean, to the last place. -/
theorem lostFrame_mean :
    (4 : ℕ) ≤ (run ⟨true, 1, 2, 5, "fuzz", true⟩ lostFrame).avgLatencyMs ∧
      (run ⟨true, 1, 2, 5, "fuzz", true⟩ lostFrame).avgLatencyMs ≤ (4 : ℕ) := by
  obtain ⟨-, hlower, hupper, -⟩ := figures_of_report ⟨true, 1, 2, 5, "fuzz", true⟩
    briefRun_lostFrame (by decide)
  have hmax : (run ⟨true, 1, 2, 5, "fuzz", true⟩ lostFrame).maxLatencyMs.toNat = 4 := by
    decide +kernel
  exact ⟨hlower 4 (by decide +kernel) (by decide +kernel), hmax ▸ hupper⟩

end FaultForge
