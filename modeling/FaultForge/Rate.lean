import Mathlib.Data.Rat.Cast.Order
import FaultForge.Report

/-!
# The Printed Detection Rate

`print` divides the detected faults by the injected ones. Physical faults are among the
injected, but they are not scored: nothing detects them and `missed` leaves them out. So
the rate stays below 100 in a campaign that has missed nothing but had a physical fault in
it, and the rate and the score agree only where no fault is physical, or something is
missed for other reasons (`rateAgrees_iff`).

What is missed is told from the truths and the detections alone: nothing iff the scored
truths can be assigned, in order, to detections that suit them (`missed_eq_zero_iff_assigned`).

## Main results

* `missed_eq_zero_iff_assigned`: when no scored fault is missed.
* `rateAgrees_iff`: when the printed rate agrees with the score.
-/

namespace FaultForge

open FirstFit

variable {opts : Opts} {dets : List Detection} {truths : List GroundTruth}

/-- The detection rate that `print` shows, without the rounding of its floating-point
quotient; nothing is shown for a campaign without faults. -/
def rate (res : CampaignResult) : Option ℚ :=
  if 0 < res.injected then some (res.detected.toNat / res.injected.toNat * 100) else none

/-- The truth is scored: some detection is expected for its kind. -/
def scored (t : GroundTruth) : Bool :=
  !(expectedDets t.kind).isEmpty

/-- **When nothing is missed**: iff the scored truths can be assigned, in order, to
detections that suit them, each behind the one before. -/
theorem missed_eq_zero_iff_assigned (hlen : truths.length < 2 ^ 16) :
    (score opts dets truths).missed = 0 ↔
      List.SublistForall₂ (fun t d => suits opts.cadenceMs t d = true) (truths.filter scored)
        dets := by
  have hpairs := @forall_isSome_iff _ _ (suits opts.cadenceMs) dets 0 (truths.filter scored)
  have hfilter := @pairing_filter _ _ (suits opts.cadenceMs) dets 0 truths scored
    fun t d h => by simp [scored, expectedDets_of_suits h]
  rw [List.drop_zero, hfilter, ← matchLoop_zip] at hpairs
  rw [← hpairs, ← UInt16.toNat_inj, missed_score opts hlen, UInt16.toNat_zero, List.countP_eq_zero]
  simp only [List.forall_mem_map, List.mem_filter, and_imp]
  refine forall₂_congr fun r _ => ?_
  cases r.2 <;> simp [scored]

/-- A share of 100 percent is all of it. -/
theorem share_eq_hundred_iff {d n : ℕ} (hn : 0 < n) : (d / n * 100 : ℚ) = 100 ↔ d = n := by
  have hne : (n : ℚ) ≠ 0 := Nat.cast_ne_zero.mpr hn.ne'
  rw [mul_eq_right₀ (by norm_num), div_eq_one_iff_eq hne, Nat.cast_inj]

/-- The printed rate is 100 iff every injected fault was detected. -/
theorem rate_eq_hundred_iff {res : CampaignResult} (hpos : 0 < res.injected) :
    rate res = some 100 ↔ res.detected.toNat = res.injected.toNat := by
  rw [rate, if_pos hpos, Option.some_inj,
    share_eq_hundred_iff (UInt16.lt_iff_toNat_lt.mp hpos)]

/-- No fault counts as physical iff every truth is scored. -/
theorem physical_eq_zero_iff (hlen : truths.length < 2 ^ 16) :
    (score opts dets truths).physical.toNat = 0 ↔ ∀ t ∈ truths, scored t = true := by
  rw [(counters_score hlen).2.2, rows_score, List.countP_map, List.countP_eq_zero]
  have hfst := @matchLoop_fst opts.cadenceMs dets truths 0
  conv_rhs => rw [← hfst, List.forall_mem_map]
  simp [scored]

/-- **The rate agrees with the score**: it is 100 exactly when nothing is missed. -/
def RateAgrees (opts : Opts) (dets : List Detection) (truths : List GroundTruth) : Prop :=
  rate (score opts dets truths) = some 100 ↔ (score opts dets truths).missed = 0

instance : Decidable (RateAgrees opts dets truths) :=
  inferInstanceAs (Decidable (_ ↔ _))

/-- **When the printed rate agrees with the score**: iff no fault is physical, or the scored
ones cannot all be assigned to detections. -/
theorem rateAgrees_iff (opts : Opts) (dets : List Detection) (truths : List GroundTruth)
    (hne : truths ≠ []) (hlen : truths.length ≤ 65535) :
    RateAgrees opts dets truths ↔
      (∀ t ∈ truths, scored t = true) ∨
        ¬ List.SublistForall₂ (fun t d => suits opts.cadenceMs t d = true) (truths.filter scored)
          dets := by
  have hlt : truths.length < 2 ^ 16 := Nat.lt_succ_of_le hlen
  have hbalance := @balance_score opts dets truths hlt
  have hpos : 0 < (score opts dets truths).injected := by
    rw [UInt16.lt_iff_toNat_lt, (counters_score hlt).1, length_rows_score]
    exact List.length_pos_iff.mpr hne
  rw [RateAgrees, rate_eq_hundred_iff hpos, ← missed_eq_zero_iff_assigned hlt,
    ← @physical_eq_zero_iff opts dets truths hlt, ← UInt16.toNat_inj,
    UInt16.toNat_zero]
  omega

/-- A DROP that is detected, and nothing else. -/
theorem rateAgrees_of_drop :
    RateAgrees ⟨true, 1, 100, 5, "fuzz", true⟩ [⟨.gap, 11, ⟨0⟩, 0⟩] [⟨1, faultDrop, 10, 0, ⟨0⟩⟩] :=
  (rateAgrees_iff _ _ _ (by decide) (by decide)).mpr (Or.inl (by decide))

/-- The same DROP, and a DUTY fault behind it. -/
def dropAndDuty : List GroundTruth :=
  [⟨1, faultDrop, 10, 0, ⟨0⟩⟩, ⟨2, faultDuty, 15, 0, ⟨0⟩⟩]

/-- With a DUTY fault beside a DROP that is detected, nothing is missed and the rate is 50. -/
theorem duty_lowers_rate :
    ¬ (∀ (opts : Opts) (dets : List Detection) (truths : List GroundTruth),
        truths ≠ [] → truths.length ≤ 65535 → (∃ t ∈ truths, scored t = true) →
          RateAgrees opts dets truths) ∧
    (score ⟨true, 1, 100, 5, "fuzz", true⟩ [⟨.gap, 11, ⟨0⟩, 0⟩] dropAndDuty).missed = 0 ∧
    rate (score ⟨true, 1, 100, 5, "fuzz", true⟩ [⟨.gap, 11, ⟨0⟩, 0⟩] dropAndDuty) = some 50 := by
  have hmissed :
      (score ⟨true, 1, 100, 5, "fuzz", true⟩ [⟨.gap, 11, ⟨0⟩, 0⟩] dropAndDuty).missed = 0 := by
    decide +kernel
  have hrate :
      rate (score ⟨true, 1, 100, 5, "fuzz", true⟩ [⟨.gap, 11, ⟨0⟩, 0⟩] dropAndDuty) = some 50 := by
    decide +kernel
  refine ⟨fun h => ?_, hmissed, hrate⟩
  have hagrees := h ⟨true, 1, 100, 5, "fuzz", true⟩ [⟨.gap, 11, ⟨0⟩, 0⟩] dropAndDuty (by decide)
    (by decide) ⟨_, List.mem_cons_self .., by decide⟩
  rw [RateAgrees, hrate, hmissed] at hagrees
  simp at hagrees

end FaultForge
