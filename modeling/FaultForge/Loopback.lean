import FaultForge.Analog

/-!
# The Telemetry Loopback

`telemetry_loopback` reads the internal reference of the converter once and checks two things
about it: that the reference is near its nominal value, and that the junction temperature is
plausible. The temperature, however, is computed from the voltage of the reference and not from
the temperature sensor, which is switched on and never read. Both checks look at one number, and
no reading passes both.

## Main results

* `toInt_tempC`: the temperature is computed without an overflow.
* `telemetryLoopback_not_ok`: which readings pass which check.
-/

namespace FaultForge

open FloorMean

/-! ### The capture -/

/-- What the telemetry loopback has measured. -/
structure TelemetryLoopback where
  vrefintCounts : UInt16
  vrefintMv : UInt32
  tempC : Int32
deriving DecidableEq, Repr

/-- The counts that the reference should give. -/
def vrefintExpected : UInt16 := 1502
/-- How far from them a reading may be. -/
def vrefintTol : UInt16 := 200
/-- The lowest plausible temperature. -/
def tempMinC : Int32 := -25
/-- The highest plausible temperature. -/
def tempMaxC : Int32 := 125

/-- `u16::abs_diff`. -/
def absDiff (a b : UInt16) : UInt16 :=
  if a < b then b - a else a - b

namespace TelemetryLoopback

/-- Whether the reading of the reference is near enough to what is expected. -/
def vrefintOk (t : TelemetryLoopback) : Bool :=
  absDiff t.vrefintCounts vrefintExpected ≤ vrefintTol

/-- Whether the temperature is plausible. -/
def tempOk (t : TelemetryLoopback) : Bool :=
  tempMinC ≤ t.tempC && t.tempC ≤ tempMaxC

/-- Whether both are. -/
def ok (t : TelemetryLoopback) : Bool :=
  t.vrefintOk && t.tempOk

end TelemetryLoopback

/-- What is captured of a reading of the reference channel. -/
def telemetryLoopback (vrefintCounts : UInt16) : TelemetryLoopback :=
  let vrefintMv := vrefintCounts.toUInt32 * 3300 / 4095
  { vrefintCounts, vrefintMv
    tempC := if 700 < vrefintMv then 25 - ((vrefintMv.toInt32 - 760) * 10 / 25) else 0 }

/-! ### The checks -/

/-- The voltage of the reference is scaled as the sampler scales its channels. -/
theorem toNat_vrefintMv (counts : UInt16) :
    (telemetryLoopback counts).vrefintMv.toNat = scale 3300 4095 counts.toNat :=
  toNat_countsToMv_sample counts

/-- Division that rounds towards zero, in terms of one that rounds down. -/
theorem tdiv_bounds (a : ℤ) :
    (0 ≤ a → 25 * a.tdiv 25 ≤ a ∧ a < 25 * a.tdiv 25 + 25) ∧
      (a < 0 → a ≤ 25 * a.tdiv 25 ∧ a.tdiv 25 ≤ 0) := by
  rw [Int.tdiv_eq_ediv, show Int.sign 25 = 1 from rfl]
  split <;> omega

/-- No step of the temperature overflows; the division rounds towards zero. -/
theorem toInt_tempC (counts : UInt16) :
    (telemetryLoopback counts).tempC.toInt =
      if 700 < scale 3300 4095 counts.toNat then
        25 - (((scale 3300 4095 counts.toNat : ℤ) - 760) * 10).tdiv 25
      else 0 := by
  have hmv := toNat_vrefintMv counts
  have hle : scale 3300 4095 counts.toNat ≤ 52812 := by
    have hlt := counts.toNat_lt
    rw [scale]
    omega
  have htemp : (telemetryLoopback counts).tempC = if 700 < (telemetryLoopback counts).vrefintMv then
      25 - (((telemetryLoopback counts).vrefintMv.toInt32 - 760) * 10 / 25) else 0 := rfl
  rw [htemp]
  generalize (telemetryLoopback counts).vrefintMv = mv at hmv ⊢
  generalize scale 3300 4095 counts.toNat = n at hmv hle ⊢
  have hcond : 700 < mv ↔ 700 < n := by rw [UInt32.lt_iff_toNat_lt, hmv]; rfl
  by_cases hlow : 700 < n
  · rw [if_pos hlow, if_pos (hcond.mpr hlow)]
    have hint : mv.toInt32.toInt = n := by
      rw [← UInt32.ofNat_toNat (x := mv), UInt32.toInt32_ofNat', hmv]
      exact Int32.toInt_ofNat_of_lt (by omega)
    have hshifted : (mv.toInt32 - 760).toInt = (n : ℤ) - 760 := by
      rw [Int32.toInt_sub, hint, show (760 : Int32).toInt = 760 from rfl]
      exact Int.bmod_eq_of_le (by omega) (by omega)
    have hscaled : ((mv.toInt32 - 760) * 10).toInt = ((n : ℤ) - 760) * 10 := by
      rw [Int32.toInt_mul, hshifted, show (10 : Int32).toInt = 10 from rfl]
      exact Int.bmod_eq_of_le (by omega) (by omega)
    have hquot : ((mv.toInt32 - 760) * 10 / 25).toInt = (((n : ℤ) - 760) * 10).tdiv 25 := by
      rw [Int32.toInt_div_of_ne_right _ 25 (by decide), hscaled]
      rfl
    have hbounds := tdiv_bounds (((n : ℤ) - 760) * 10)
    rw [Int32.toInt_sub, hquot, show (25 : Int32).toInt = 25 from rfl]
    exact Int.bmod_eq_of_le (by omega) (by omega)
  · rw [if_neg hlow, if_neg (mt hcond.mp hlow)]
    rfl

/-- **The loopback never succeeds.** The reference is in order for 1302 to 1702 counts, but the
temperature is computed from the voltage of the reference, too, and is plausible only up to 1101
counts. -/
theorem telemetryLoopback_not_ok (counts : UInt16) :
    ((telemetryLoopback counts).vrefintOk = true ↔
      1302 ≤ counts.toNat ∧ counts.toNat ≤ 1702) ∧
    ((telemetryLoopback counts).tempOk = true ↔ counts.toNat ≤ 1101) ∧
    (telemetryLoopback counts).ok = false := by
  have hvrefint : (telemetryLoopback counts).vrefintOk = true ↔
      1302 ≤ counts.toNat ∧ counts.toNat ≤ 1702 := by
    have hlt := counts.toNat_lt
    have hcounts : (telemetryLoopback counts).vrefintCounts = counts := rfl
    rw [TelemetryLoopback.vrefintOk, decide_eq_true_iff, hcounts, absDiff,
      UInt16.le_iff_toNat_le, show vrefintTol.toNat = 200 from rfl]
    have hexpected : vrefintExpected.toNat = 1502 := rfl
    split
    · next h =>
      rw [UInt16.lt_iff_toNat_lt] at h
      rw [UInt16.toNat_sub_of_le _ _ (UInt16.le_iff_toNat_le.mpr h.le)]
      omega
    · next h =>
      rw [UInt16.lt_iff_toNat_lt, Nat.not_lt] at h
      rw [UInt16.toNat_sub_of_le _ _ (UInt16.le_iff_toNat_le.mpr h)]
      omega
  have htemp : (telemetryLoopback counts).tempOk = true ↔ counts.toNat ≤ 1101 := by
    have hmv : 888 ≤ scale 3300 4095 counts.toNat ↔ 1102 ≤ counts.toNat := by
      rw [scale]
      omega
    rw [TelemetryLoopback.tempOk, Bool.and_eq_true, decide_eq_true_iff, decide_eq_true_iff,
      Int32.le_iff_toInt_le, Int32.le_iff_toInt_le, toInt_tempC,
      show tempMinC.toInt = -25 from rfl, show tempMaxC.toInt = 125 from rfl]
    have hbounds := tdiv_bounds (((scale 3300 4095 counts.toNat : ℤ) - 760) * 10)
    split <;> omega
  refine ⟨hvrefint, htemp, ?_⟩
  rw [TelemetryLoopback.ok, Bool.eq_false_iff, ne_eq, Bool.and_eq_true, hvrefint, htemp]
  omega

end FaultForge
