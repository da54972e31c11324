import Mathlib.Data.Finset.Max
import Mathlib.Tactic.Ring
import FaultForge.Lib.FixedArray
import FaultForge.Lib.FloorMean

/-!
# The Analog Sampler

The two channels of the converter lie interleaved in the buffer, so `update_analog` sums
every other sample and divides both sums by half the count. When the count is odd, the
channel at the even positions has one sample more than that, and the voltage reported for
it is not that of its mean: `IsMean` is what the report says, and
`updateAnalog_isMean_iff` when it is true. The rounding to millivolts hides the wrong
divisor for small voltages only; three samples at full scale are reported as twice the
supply voltage.

## Main results

* `isMean_iff`: when one channel is reported with its mean.
* `updateAnalog_isMean_iff`: when both are.
-/

namespace FaultForge

open FixedArray FloorMean

/-! ### The sampler -/

/-- A slice of samples. On the 32-bit target a slice has less than `2 ^ 31` bytes. -/
structure Samples where
  toList : List UInt16
  length_lt : toList.length < 2 ^ 30

/-- The sampler: the last voltages of both channels in millivolts, and how many samples it has
been given. -/
structure AnalogSampler where
  pa0Mv : UInt32
  pa1Mv : UInt32
  sampleCount : UInt32
deriving DecidableEq, Repr

/-- `step_by(2)`: the first element, the third, and so on. -/
def stepByTwo {α : Type*} : List α → List α
  | [] => []
  | [x] => [x]
  | x :: _ :: xs => x :: stepByTwo xs

/-- The sum of the samples as `u32`; it wraps as in a release build. -/
def sumU32 (xs : List UInt16) : UInt32 :=
  (xs.map UInt16.toUInt32).foldl (· + ·) 0

namespace AnalogSampler

/-- No voltage has been measured. -/
def new : AnalogSampler :=
  ⟨0, 0, 0⟩

/-- Counts of the 12-bit converter in millivolts, in the arithmetic of `u32`. -/
def countsToMv (counts : UInt32) : UInt32 :=
  counts * 3300 / 4095

/-- `update_analog`, with the range check of `measurements[..count]`. -/
def updateAnalog (self : AnalogSampler) (measurements : Samples) (count : ℕ) :
    Option AnalogSampler :=
  if count < 2 then some self
  else do
    let xs ← slice measurements.toList 0 count
    return {
      pa0Mv := countsToMv (sumU32 (stepByTwo xs) / UInt32.ofNat (count / 2))
      pa1Mv := countsToMv (sumU32 (stepByTwo (xs.drop 1)) / UInt32.ofNat (count / 2))
      sampleCount := self.sampleCount + UInt32.ofNat count }

end AnalogSampler

open AnalogSampler

/-! ### The channels -/

/-- The samples at the even positions, those of the first channel. -/
def evenIndexed (xs : List UInt16) : List UInt16 :=
  stepByTwo xs

/-- The samples at the odd positions, those of the second channel. -/
def oddIndexed (xs : List UInt16) : List UInt16 :=
  stepByTwo (xs.drop 1)

/-- Every other entry, from the first one on. -/
theorem getElem?_stepByTwo {α : Type*} (xs : List α) (i : ℕ) :
    (stepByTwo xs)[i]? = xs[2 * i]? := by
  induction xs using stepByTwo.induct generalizing i with
  | case1 => simp [stepByTwo]
  | case2 x => cases i <;> simp [stepByTwo, Nat.mul_add]
  | case3 x y xs ih => cases i <;> simp [stepByTwo, ih, Nat.mul_add]

/-- The samples of the first channel are at the even places. -/
theorem getElem?_evenIndexed (xs : List UInt16) (i : ℕ) : (evenIndexed xs)[i]? = xs[2 * i]? :=
  getElem?_stepByTwo xs i

/-- Those of the second channel are at the odd places. -/
theorem getElem?_oddIndexed (xs : List UInt16) (i : ℕ) :
    (oddIndexed xs)[i]? = xs[2 * i + 1]? := by
  rw [oddIndexed, getElem?_stepByTwo, List.getElem?_drop, Nat.add_comm]

/-- A list of odd length has its last entry at an even place. -/
theorem length_stepByTwo {α : Type*} (xs : List α) :
    (stepByTwo xs).length = (xs.length + 1) / 2 := by
  induction xs using stepByTwo.induct with
  | case1 => simp [stepByTwo]
  | case2 x => simp [stepByTwo]
  | case3 x y xs ih =>
      simp only [stepByTwo, List.length_cons, ih]
      omega

/-- There are as many pairs as samples at odd places. -/
theorem length_oddIndexed (xs : List UInt16) : (oddIndexed xs).length = xs.length / 2 := by
  rw [oddIndexed, length_stepByTwo, List.length_drop]
  omega

/-- Every other entry is an entry, in order. -/
theorem stepByTwo_sublist {α : Type*} (xs : List α) : (stepByTwo xs).Sublist xs := by
  induction xs using stepByTwo.induct with
  | case1 => exact List.Sublist.slnil
  | case2 x => exact List.Sublist.refl _
  | case3 x y xs ih => exact (ih.cons y).cons_cons x

/-- The first channel takes its samples from the buffer. -/
theorem evenIndexed_sublist (xs : List UInt16) : (evenIndexed xs).Sublist xs :=
  stepByTwo_sublist xs

/-- So does the second channel. -/
theorem oddIndexed_sublist (xs : List UInt16) : (oddIndexed xs).Sublist xs :=
  (stepByTwo_sublist _).trans (List.drop_sublist 1 xs)

/-- The sum of the samples as a number. -/
def total (xs : List UInt16) : ℕ :=
  (xs.map UInt16.toNat).sum

/-- The total, sample by sample. -/
theorem total_cons (x : UInt16) (xs : List UInt16) : total (x :: xs) = x.toNat + total xs := by
  rw [total, List.map_cons, List.sum_cons, total]

/-- The sum of the code is the total, up to overflow. -/
theorem toNat_sumU32 (xs : List UInt16) : (sumU32 xs).toNat = total xs % 2 ^ 32 := by
  have hfold : ∀ acc : UInt32,
      ((xs.map UInt16.toUInt32).foldl (· + ·) acc).toNat = (acc.toNat + total xs) % 2 ^ 32 := by
    induction xs with
    | nil =>
        intro acc
        exact (Nat.mod_eq_of_lt acc.toNat_lt).symm
    | cons x xs ih =>
        intro acc
        rw [List.map_cons, List.foldl_cons, ih, UInt32.toNat_add, UInt16.toNat_toUInt32,
          total_cons, Nat.mod_add_mod, Nat.add_assoc]
  rw [sumU32, hfold, UInt32.toNat_zero, Nat.zero_add]

/-- The total is at most the number of the samples times a bound on them. -/
theorem total_le {xs : List UInt16} {hi : ℕ} (h : ∀ x ∈ xs, x.toNat ≤ hi) :
    total xs ≤ xs.length * hi := by
  rw [total, ← List.length_map UInt16.toNat]
  exact List.sum_le_card_nsmul _ hi (List.forall_mem_map.mpr h)

/-! ### The voltage of a channel -/

/-- The voltage is that of the channel's mean: so it lies between those of the smallest and
the largest sample, and within the supply voltage. -/
structure IsMean (xs : List UInt16) (mv : UInt32) : Prop where
  mean : mv = countsToMv (UInt32.ofNat (mean (xs.map UInt16.toNat)))
  between : ∃ lo ∈ xs, ∃ hi ∈ xs, (∀ x ∈ xs, lo ≤ x ∧ x ≤ hi) ∧
    countsToMv lo.toUInt32 ≤ mv ∧ mv ≤ countsToMv hi.toUInt32
  le_supply : mv ≤ 3300

/-- Counts are scaled exactly as long as the product fits. -/
theorem toNat_countsToMv {counts : UInt32} (h : counts.toNat * 3300 < 2 ^ 32) :
    (countsToMv counts).toNat = scale 3300 4095 counts.toNat := by
  rw [countsToMv, UInt32.toNat_div, UInt32.toNat_mul]
  exact congrArg (· / 4095) (Nat.mod_eq_of_lt h)

/-- Where the product does not overflow, the conversion is the scaling of the library. -/
theorem toNat_countsToMv_ofNat {n : ℕ} (h : n * 3300 < 2 ^ 32) :
    (countsToMv (UInt32.ofNat n)).toNat = scale 3300 4095 n := by
  have hn : (UInt32.ofNat n).toNat = n := UInt32.toNat_ofNat_of_lt' (by omega : n < 2 ^ 32)
  rw [toNat_countsToMv (by rwa [hn]), hn]

/-- The product overflows for no single sample, not even for one above the range of the
converter. -/
theorem toNat_countsToMv_sample (x : UInt16) :
    (countsToMv x.toUInt32).toNat = scale 3300 4095 x.toNat := by
  have hx := x.toNat_lt
  rw [toNat_countsToMv, UInt16.toNat_toUInt32]
  rw [UInt16.toNat_toUInt32]
  omega

/-- A channel has a smallest and a largest sample. -/
theorem exists_bounds {xs : List UInt16} (hne : xs ≠ []) :
    ∃ lo ∈ xs, ∃ hi ∈ xs, ∀ x ∈ xs, lo ≤ x ∧ x ≤ hi := by
  have hmem : xs.toFinset.Nonempty := by
    obtain ⟨x, hx⟩ := List.exists_mem_of_ne_nil xs hne
    exact ⟨x, List.mem_toFinset.mpr hx⟩
  obtain ⟨lo, hlo, hmin⟩ := xs.toFinset.exists_min_image UInt16.toNat hmem
  obtain ⟨hi, hhi, hmax⟩ := xs.toFinset.exists_max_image UInt16.toNat hmem
  simp only [List.mem_toFinset] at hlo hhi hmin hmax
  exact ⟨lo, hlo, hi, hhi, fun x hx =>
    ⟨UInt16.le_iff_toNat_le.mpr (hmin x hx), UInt16.le_iff_toNat_le.mpr (hmax x hx)⟩⟩

/-- The voltage of the mean lies between those of the extreme samples. -/
theorem isMean_iff_eq {xs : List UInt16} {mv : UInt32} (hne : xs ≠ [])
    (h12 : ∀ x ∈ xs, x ≤ 4095) :
    IsMean xs mv ↔
      mv = countsToMv (UInt32.ofNat (mean (xs.map UInt16.toNat))) := by
  refine ⟨IsMean.mean, ?_⟩
  rintro rfl
  obtain ⟨lo, hlo, hi, hhi, hbounds⟩ := exists_bounds hne
  have hmin : lo.toNat ≤ mean (xs.map UInt16.toNat) := by
    refine le_mean (by simpa using hne) (List.forall_mem_map.mpr fun x hx => ?_)
    exact UInt16.le_iff_toNat_le.mp (hbounds x hx).1
  have hmax : mean (xs.map UInt16.toNat) ≤ hi.toNat := by
    refine mean_le (List.forall_mem_map.mpr fun x hx => ?_)
    exact UInt16.le_iff_toNat_le.mp (hbounds x hx).2
  have hfull : hi.toNat ≤ 4095 := UInt16.le_iff_toNat_le.mp (h12 hi hhi)
  have hmv := toNat_countsToMv_ofNat (n := mean (xs.map UInt16.toNat)) (by omega)
  refine ⟨rfl, ⟨lo, hlo, hi, hhi, hbounds, ?_, ?_⟩, ?_⟩ <;>
    rw [UInt32.le_iff_toNat_le, hmv]
  · rw [toNat_countsToMv_sample]
    exact scale_mono hmin
  · rw [toNat_countsToMv_sample]
    exact scale_mono hmax
  · simpa using scale_le (hmax.trans hfull)

/-! ### The divisor -/

/-- The sum of a channel, divided by the half of the count, gives the voltage of the mean:
the channel has as many samples as that, or dividing by one less is hidden by the rounding. -/
def SameMv (sum half samples : ℕ) : Prop :=
  samples = half ∨
    sum / samples + sum % samples < half ∨
      sum / samples + sum % samples < 2 * half ∧ sum / samples * 3300 % 4095 + 3300 < 4095

/-- The code's quotient is that of the wrapped sum. -/
theorem sumU32_div_ofNat (xs : List UInt16) {half : ℕ} (hlt : half < 2 ^ 32) :
    sumU32 xs / UInt32.ofNat half = UInt32.ofNat (total xs % 2 ^ 32 / half) := by
  have hquot : total xs % 2 ^ 32 / half < 2 ^ 32 :=
    (Nat.div_le_self ..).trans_lt (Nat.mod_lt _ (Nat.two_pow_pos 32))
  apply UInt32.toNat_inj.mp
  rw [UInt32.toNat_div, toNat_sumU32, UInt32.toNat_ofNat_of_lt' hlt,
    UInt32.toNat_ofNat_of_lt' hquot]

/-- A channel has at most twice as many samples as the divisor. -/
theorem div_half_le {sum half samples hi : ℕ} (hhalf : 0 < half)
    (hsamples : samples = half ∨ samples = half + 1) (hsum : sum ≤ samples * hi) :
    sum / half ≤ 2 * hi := by
  refine Nat.div_le_of_le_mul ?_
  calc sum ≤ samples * hi := hsum
    _ ≤ half * 2 * hi := Nat.mul_le_mul_right _ (by omega)
    _ = half * (2 * hi) := Nat.mul_assoc ..

/-- When the sum of a channel wraps, its quotient is too small by more than a step. -/
theorem div_lt_of_wrap {sum half samples : ℕ} (hhalf : 0 < half) (hlt : half < 2 ^ 29)
    (hsamples : samples = half ∨ samples = half + 1) (hsum : sum ≤ samples * 4095)
    (hwrap : 2 ^ 32 ≤ sum) : sum % 2 ^ 32 / half + 2 ≤ sum / samples := by
  have hquot : sum % 2 ^ 32 / half ≤ 2 * 4095 :=
    div_half_le hhalf hsamples ((Nat.mod_le _ _).trans hsum)
  have hmod : sum % 2 ^ 32 + 2 ^ 32 ≤ sum := by omega
  have hmul := Nat.div_mul_le_self (sum % 2 ^ 32) half
  generalize sum % 2 ^ 32 / half = q at *
  rw [Nat.le_div_iff_mul_le (by omega)]
  calc (q + 2) * samples ≤ (q + 2) * (half + 1) := Nat.mul_le_mul_left _ (by omega)
    _ = q * half + q + 2 * half + 2 := by ring
    _ ≤ sum := by omega

/-- **When one channel is reported with its mean**: its sum fits, and the divisor is the
number of its samples or the rounding hides that it is not. -/
theorem isMean_iff {xs : List UInt16} {half : ℕ} (hhalf : 0 < half) (hlt : half < 2 ^ 29)
    (hlen : xs.length = half ∨ xs.length = half + 1) (h12 : ∀ x ∈ xs, x ≤ 4095) :
    IsMean xs (countsToMv (sumU32 xs / UInt32.ofNat half)) ↔
      total xs < 2 ^ 32 ∧ SameMv (total xs) half xs.length := by
  have hne : xs ≠ [] := by
    rintro rfl
    simp only [List.length_nil] at hlen
    omega
  have hsum : total xs ≤ xs.length * 4095 :=
    total_le fun x hx => UInt16.le_iff_toNat_le.mp (h12 x hx)
  -- both quotients are small enough to be scaled exactly
  have hquot : total xs % 2 ^ 32 / half ≤ 2 * 4095 :=
    div_half_le hhalf hlen ((Nat.mod_le _ _).trans hsum)
  have hmean : mean (xs.map UInt16.toNat) = total xs / xs.length := by
    rw [mean, List.length_map, total]
  have hmeanle : total xs / xs.length ≤ 4095 := Nat.div_le_of_le_mul hsum
  rw [isMean_iff_eq hne h12, sumU32_div_ofNat xs (by omega), hmean, ← UInt32.toNat_inj,
    toNat_countsToMv_ofNat (by omega), toNat_countsToMv_ofNat (by omega)]
  rcases Nat.lt_or_ge (total xs) (2 ^ 32) with hfits | hwrap
  · rw [Nat.mod_eq_of_lt hfits, SameMv, and_iff_right hfits]
    rcases hlen with hlen | hlen
    · simp [hlen]
    · rw [hlen, scale_div_eq_iff (by decide) (by decide) _ hhalf]
      simp
  · have hdrop := div_lt_of_wrap hhalf hlt hlen hsum hwrap
    have hlow := scale_lt_of_add_two_le (a := 3300) (b := 4095) (by decide) (by decide) hdrop
    exact iff_of_false hlow.ne fun h => Nat.not_lt.mpr hwrap h.1

/-! ### The report -/

namespace AnalogSampler

/-- An update succeeds when the count is within the slice. -/
theorem updateAnalog_eq_some (self : AnalogSampler) {measurements : Samples} {count : ℕ}
    (h2 : 2 ≤ count) (hlen : count ≤ measurements.toList.length) :
    self.updateAnalog measurements count = some {
      pa0Mv := countsToMv (sumU32 (evenIndexed (measurements.toList.take count)) /
        UInt32.ofNat (count / 2))
      pa1Mv := countsToMv (sumU32 (oddIndexed (measurements.toList.take count)) /
        UInt32.ofNat (count / 2))
      sampleCount := self.sampleCount + UInt32.ofNat count } := by
  rw [updateAnalog, if_neg (Nat.not_lt.mpr h2), slice_eq_some (Nat.zero_le _) hlen]
  rfl

/-- Both sums fit, and the sum of the first channel, which has the odd sample, has the same
voltage with the smaller divisor. -/
structure MeansExact (xs : List UInt16) : Prop where
  even : total (evenIndexed xs) < 2 ^ 32
  odd : total (oddIndexed xs) < 2 ^ 32
  sameMv : SameMv (total (evenIndexed xs)) (xs.length / 2) ((xs.length + 1) / 2)

/-- **When an update reports the means** of both channels: for every slice of samples of
twelve bits and every count within it. -/
theorem updateAnalog_isMean_iff (self : AnalogSampler) (measurements : Samples) (count : ℕ)
    (h12 : ∀ x ∈ measurements.toList, x ≤ 4095) (h2 : 2 ≤ count)
    (hlen : count ≤ measurements.toList.length) :
    (∃ sampler, self.updateAnalog measurements count = some sampler ∧
        IsMean (evenIndexed (measurements.toList.take count)) sampler.pa0Mv ∧
        IsMean (oddIndexed (measurements.toList.take count)) sampler.pa1Mv) ↔
      MeansExact (measurements.toList.take count) := by
  have hslice := measurements.length_lt
  have h12' : ∀ x ∈ measurements.toList.take count, x ≤ 4095 :=
    fun x hx => h12 x (List.mem_of_mem_take hx)
  have hcount : (measurements.toList.take count).length = count := by
    rw [List.length_take, Nat.min_eq_left hlen]
  have heven : (evenIndexed (measurements.toList.take count)).length = (count + 1) / 2 := by
    rw [evenIndexed, length_stepByTwo, hcount]
  have hodd : (oddIndexed (measurements.toList.take count)).length = count / 2 := by
    rw [length_oddIndexed, hcount]
  have hhalf : 0 < count / 2 := Nat.div_pos h2 Nat.two_pos
  simp only [updateAnalog_eq_some self h2 hlen, Option.some.injEq, exists_eq_left']
  rw [isMean_iff hhalf (by omega) (by omega)
      fun x hx => h12' x ((evenIndexed_sublist _).mem hx),
    isMean_iff hhalf (by omega) (by omega)
      fun x hx => h12' x ((oddIndexed_sublist _).mem hx), heven, hodd]
  constructor
  · rintro ⟨⟨hfits, hsame⟩, hfits', -⟩
    exact ⟨hfits, hfits', by rwa [hcount]⟩
  · rintro ⟨hfits, hfits', hsame⟩
    rw [hcount] at hsame
    exact ⟨⟨hfits, hsame⟩, hfits', Or.inl rfl⟩

/-- Two samples for each channel are reported as their means. -/
theorem four_samples_isMean :
    ∃ sampler, new.updateAnalog ⟨[4095, 10, 4000, 13], by decide⟩ 4 = some sampler ∧
      IsMean [4095, 4000] sampler.pa0Mv ∧ IsMean [10, 13] sampler.pa1Mv :=
  (updateAnalog_isMean_iff new ⟨[4095, 10, 4000, 13], by decide⟩ 4 (by simp) (by decide)
    (by decide)).mpr ⟨by decide, by decide, Or.inl rfl⟩

/-- Of three samples the first channel has two, and the second is added on top: at full
scale twice the supply voltage is reported. -/
theorem odd_count_inflates :
    ¬ ∀ (self : AnalogSampler) (measurements : Samples) (count : ℕ),
      (∀ x ∈ measurements.toList, x ≤ 4095) → 2 ≤ count → count ≤ measurements.toList.length →
      ∃ sampler, self.updateAnalog measurements count = some sampler ∧
        IsMean (evenIndexed (measurements.toList.take count)) sampler.pa0Mv ∧
        IsMean (oddIndexed (measurements.toList.take count)) sampler.pa1Mv := by
  intro h
  obtain ⟨sampler, hupdate, hmean, -⟩ :=
    h new ⟨[4095, 0, 4095], by decide⟩ 3 (by simp) (by decide) (by decide)
  have hreport : new.updateAnalog ⟨[4095, 0, 4095], by decide⟩ 3 = some ⟨6600, 0, 3⟩ := by decide
  obtain rfl := Option.some.inj (hreport.symm.trans hupdate)
  exact absurd hmean.le_supply (by decide)

end AnalogSampler

end FaultForge
