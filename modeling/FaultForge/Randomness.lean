import Mathlib.Data.Rat.Floor
import Mathlib.Tactic.NormNum
import FaultForge.Acceptance
import FaultForge.Lib.Floating

/-!
# The Demo of the Random Numbers

`trng` writes 32 random bytes in hexadecimal. `trng health` also counts the ones in 1000 more and
asks whether their share is within 0.02 of one half, in single precision. The share is rounded,
the bound is rounded, and the two ends of the interval do not round alike: 4160 ones are passed
and 3840 are not (`passes_iff`). So the test tells ones from zeros: there are samples that it
passes while it fails their complement (`monobit_asymmetric`).

The bytes that the generator fills in are a parameter.

## Main results

* `passes_iff`: which samples pass.
* `monobit_asymmetric`: when a sample and its complement are not judged alike.
* `trngDemo_eq_iff`: what the transcript tells.
-/

namespace FaultForge

open Floating

/-! ### The test -/

/-- Rounding to single precision. -/
def toF32 (x : ℚ) : ℚ :=
  toNearest 24 x

/-- Rounding to single precision is monotone. -/
theorem toF32_mono : Monotone toF32 :=
  toNearest_mono (by decide)

/-- The ones in the samples, `b.count_ones()` summed up. -/
def countOnes (samples : List UInt8) : ℕ :=
  (samples.map fun b => b.toBitVec.cpop.toNat).sum

/-- `ones as f32 / 8000.0`. -/
def onesShare (ones : ℕ) : ℚ :=
  toF32 (toF32 ones / toF32 8000)

/-- `prop - 0.5`. -/
def offHalf (ones : ℕ) : ℚ :=
  toF32 (onesShare ones - toF32 (1 / 2))

/-- The monobit test: `(prop - 0.5).abs() < 0.02`. -/
def passes (samples : List.Vector UInt8 1000) : Bool :=
  |offHalf (countOnes samples.toList)| < toF32 (1 / 50)

/-! ### Which samples pass -/

/-- So is the distance from one half, in the number of ones. -/
theorem offHalf_mono : Monotone offHalf := by
  intro m n hmn
  have hpos : (0 : ℚ) ≤ toF32 8000 := toNearest_nonneg (by decide) (by norm_num)
  have hones : toF32 m ≤ toF32 n := toF32_mono (Nat.cast_le.mpr hmn)
  exact toF32_mono (sub_le_sub_right (toF32_mono (div_le_div_of_nonneg_right hones hpos)) _)

/-- The bounds of the test, each next to the count where it turns. -/
theorem abs_offHalf_lt_iff (ones : ℕ) :
    |offHalf ones| < toF32 (1 / 50) ↔ 3841 ≤ ones ∧ ones ≤ 4160 := by
  have hbelow : offHalf 3840 ≤ -toF32 (1 / 50) := by decide +kernel
  have hfirst : -toF32 (1 / 50) < offHalf 3841 := by decide +kernel
  have hlast : offHalf 4160 < toF32 (1 / 50) := by decide +kernel
  have habove : toF32 (1 / 50) ≤ offHalf 4161 := by decide +kernel
  rw [abs_lt]
  constructor
  · rintro ⟨hlower, hupper⟩
    refine ⟨Nat.lt_of_not_le fun h => ?_, Nat.le_of_lt_succ (Nat.lt_of_not_le fun h => ?_)⟩
    · exact absurd hlower ((offHalf_mono h).trans hbelow).not_gt
    · exact absurd hupper (habove.trans (offHalf_mono h)).not_gt
  · rintro ⟨hlower, hupper⟩
    exact ⟨hfirst.trans_le (offHalf_mono hlower), (offHalf_mono hupper).trans_lt hlast⟩

/-- **Which samples pass**: those with 3841 to 4160 ones. -/
theorem passes_iff (samples : List.Vector UInt8 1000) :
    passes samples = true ↔
      3841 ≤ countOnes samples.toList ∧ countOnes samples.toList ≤ 4160 := by
  rw [passes, decide_eq_true_iff, abs_offHalf_lt_iff]

/-! ### Ones and zeros -/

/-- Every bit of the samples, the other way. -/
def complement (samples : List.Vector UInt8 1000) : List.Vector UInt8 1000 :=
  samples.map (~~~ ·)

/-- A bit is one in a byte or in its complement. -/
theorem cpop_not (b : UInt8) : (~~~b).toBitVec.cpop.toNat + b.toBitVec.cpop.toNat = 8 :=
  forall_byte (fun b => (~~~b).toBitVec.cpop.toNat + b.toBitVec.cpop.toNat = 8)
    (by decide +kernel) b

/-- The ones of a sample and of its complement add up to all bits. -/
theorem countOnes_not (samples : List UInt8) :
    countOnes (samples.map (~~~ ·)) + countOnes samples = 8 * samples.length := by
  induction samples with
  | nil => rfl
  | cons b samples ih =>
      have hb := cpop_not b
      simp only [countOnes, List.map_cons, List.sum_cons, List.length_cons] at ih ⊢
      omega

/-- **The test tells ones from zeros.** A sample passes iff it has 3841 to 4160 ones. So it and
its complement are judged alike, unless one of them has 3840 ones: that one fails and the other
passes, though both are as far from one half. -/
theorem monobit_asymmetric (samples : List.Vector UInt8 1000) :
    (passes samples = true ↔
      3841 ≤ countOnes samples.toList ∧ countOnes samples.toList ≤ 4160) ∧
    (passes (complement samples) ≠ passes samples ↔
      countOnes samples.toList = 3840 ∨ countOnes samples.toList = 4160) := by
  refine ⟨passes_iff samples, ?_⟩
  have hcount := countOnes_not samples.toList
  rw [samples.toList_length, ← List.Vector.toList_map] at hcount
  have hnot := passes_iff (complement samples)
  have hself := passes_iff samples
  rw [complement] at hnot ⊢
  rw [Ne, Bool.eq_iff_iff, hnot, hself]
  omega

/-! ### The transcript -/

/-- The bytes of a text in ASCII. -/
def ascii (text : String) : List UInt8 :=
  text.toList.map fun c => c.val.toUInt8

/-- A half byte in hexadecimal. -/
def hexDigit (n : UInt8) : UInt8 :=
  n + if n < 10 then 48 else 65 - 10

/-- The bytes in hexadecimal, two digits each. -/
def hexOf (buf : List UInt8) : List UInt8 :=
  buf.flatMap fun b : UInt8 => [hexDigit (b >>> 4), hexDigit (b &&& 0xF)]

/-- The line of the test, for `trng health` only. -/
def verdictLine (arg : Option String) (samples : List.Vector UInt8 1000) : List UInt8 :=
  if arg = some "health" then
    if passes samples then ascii "Monobit test: PASS\r\n" else ascii "Monobit test: FAIL\r\n"
  else []

/-- What `trng_demo` writes, for the bytes that the generator has filled in. -/
def trngDemo (arg : Option String) (buf : List.Vector UInt8 32)
    (samples : List.Vector UInt8 1000) : List UInt8 :=
  ascii "TRNG 32 bytes: " ++ (hexOf buf.toList ++ (ascii "\r\n" ++ verdictLine arg samples))

/-- The half byte of a digit. -/
def hexValue (c : UInt8) : UInt8 :=
  if c < 65 then c - 48 else c - 55

/-- Read hexadecimal digits, two for each byte. -/
def readHex : List UInt8 → List UInt8
  | hi :: lo :: rest => (hexValue hi <<< 4 ||| hexValue lo) :: readHex rest
  | _ => []

/-- The two digits of a byte give it back. -/
theorem hexValue_digits (b : UInt8) :
    hexValue (hexDigit (b >>> 4)) <<< 4 ||| hexValue (hexDigit (b &&& 0xF)) = b :=
  forall_byte (fun b =>
    hexValue (hexDigit (b >>> 4)) <<< 4 ||| hexValue (hexDigit (b &&& 0xF)) = b)
    (by decide +kernel) b

/-- The bytes can be read back from the text. -/
theorem readHex_hexOf (buf : List UInt8) : readHex (hexOf buf) = buf := by
  induction buf with
  | nil => rfl
  | cons b buf ih =>
      rw [hexOf, List.flatMap_cons, ← hexOf]
      exact congrArg₂ List.cons (hexValue_digits b) ih

/-- There are two digits for each byte. -/
theorem length_hexOf (buf : List UInt8) : (hexOf buf).length = 2 * buf.length := by
  simp [hexOf, mul_comm]

/-- The line of the verdict tells whether the sample passes, and nothing else. -/
theorem verdictLine_eq_iff (arg : Option String) (samples samples' : List.Vector UInt8 1000) :
    verdictLine arg samples = verdictLine arg samples' ↔
      (arg = some "health" → passes samples = passes samples') := by
  rw [verdictLine, verdictLine]
  by_cases harg : arg = some "health"
  · cases passes samples <;> cases passes samples' <;> simp [harg] <;> decide
  · simp [harg]

/-- **What the transcript tells**: the bytes, and with `health` the verdict on the samples. -/
theorem trngDemo_eq_iff (arg : Option String) (buf buf' : List.Vector UInt8 32)
    (samples samples' : List.Vector UInt8 1000) :
    trngDemo arg buf samples = trngDemo arg buf' samples' ↔
      buf = buf' ∧ (arg = some "health" → passes samples = passes samples') := by
  have hlen : (hexOf buf.toList).length = (hexOf buf'.toList).length := by
    rw [length_hexOf, length_hexOf, buf.toList_length, buf'.toList_length]
  rw [← verdictLine_eq_iff, trngDemo, trngDemo, List.append_cancel_left_eq]
  constructor
  · intro h
    obtain ⟨hbytes, hrest⟩ := List.append_inj h hlen
    have hread := congrArg readHex hbytes
    rw [readHex_hexOf, readHex_hexOf] at hread
    exact ⟨List.Vector.eq _ _ hread, List.append_cancel_left hrest⟩
  · rintro ⟨rfl, hverdict⟩
    rw [hverdict]

end FaultForge
