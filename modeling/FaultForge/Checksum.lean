import FaultForge.Lib.Crc
import FaultForge.Wire

/-!
# The Strength of the Checksum

`crc8` is the shift register of `FaultForge.Lib.Crc` of width 8 with feedback `0x07`
(`toBitVec_crc8`), so it computes remainders modulo `X ^ 8 + X ^ 2 + X + 1`. The rules of the
library then say which corruptions of a codeword it notices. That generator has the
factor `X + 1`, it does not have the factor `X`, and the register itself tells that no
power of `X` below the 127th is congruent to one (`order_of_shift`).

## Main results

* `crc8_isRemainder`: `crc8` is the CRC it claims to be.
* `crc8_detects`: the corruptions that `crc8` notices, for messages of every length.
-/

namespace FaultForge

open Polynomial

/-! ### The register -/

/-- The feedback word of `crc8`. -/
def feedback : BitVec 8 := 0x07

/-- One bit of the checksum is one shift of the register. -/
theorem toBitVec_crcShift (c : UInt8) :
    (crcShift c).toBitVec = Crc.shift feedback c.toBitVec := by
  have htop : ∀ v : BitVec 8, v &&& 0x80 ≠ 0 ↔ v.msb = true := by decide
  have hmsb : c &&& 0x80 ≠ 0 ↔ c.toBitVec.msb = true := by
    rw [← htop, ne_eq, ne_eq, ← UInt8.toBitVec_inj, UInt8.toBitVec_and]
    rfl
  have hshl : (c <<< 1).toBitVec = c.toBitVec <<< 1 := by
    rw [UInt8.toBitVec_shiftLeft]
    rfl
  by_cases h : c &&& 0x80 ≠ 0
  · rw [crcShift, if_pos h, Crc.shift, if_pos (hmsb.mp h), UInt8.toBitVec_xor, hshl]
    rfl
  · rw [crcShift, if_neg h, Crc.shift, if_neg (fun hm => h (hmsb.mpr hm)), hshl]

/-- The shifts of the code are those of the library, for its feedback. -/
theorem toBitVec_iterate (k : ℕ) (c : UInt8) :
    (crcShift^[k] c).toBitVec = (Crc.shift feedback)^[k] c.toBitVec := by
  induction k generalizing c with
  | zero => rfl
  | succ k ih =>
      rw [Function.iterate_succ_apply, Function.iterate_succ_apply, ih, toBitVec_crcShift]

/-- **`crc8` is the checksum of the register.** -/
theorem toBitVec_crc8 (data : List UInt8) :
    (crc8 data).toBitVec = Crc.crc feedback (data.map UInt8.toBitVec) := by
  have hfold : ∀ c : UInt8, (data.foldl (fun c b => crcShift^[8] (c ^^^ b)) c).toBitVec =
      (data.map UInt8.toBitVec).foldl (Crc.feed feedback) c.toBitVec := by
    induction data with
    | nil => exact fun c => rfl
    | cons b data ih =>
        intro c
        rw [List.foldl_cons, ih, toBitVec_iterate, UInt8.toBitVec_xor]
        rfl
  exact hfold 0

/-! ### The generator -/

/-- The generator of CRC-8/ATM. -/
theorem generator_feedback : Crc.generator feedback = X ^ 8 + X ^ 2 + X + 1 := by
  have hbits : Crc.msbBits feedback =
      [false, false, false, false, false, true, true, true] := by decide
  rw [Crc.generator, hbits]
  simp [Crc.ofBits, add_assoc]

/-- The generator vanishes at one, so it detects every odd number of errors. -/
theorem factor_generator : (X + 1 : (ZMod 2)[X]) ∣ X ^ 8 + X ^ 2 + X + 1 := by
  refine ⟨X ^ 7 + X ^ 6 + X ^ 5 + X ^ 4 + X ^ 3 + X ^ 2 + 1, ?_⟩
  have htwo : (2 : (ZMod 2)[X]) = 0 := CharTwo.two_eq_zero
  linear_combination -(X ^ 7 + X ^ 6 + X ^ 5 + X ^ 4 + X ^ 3) * htwo

/-- The generator has a constant term, so it has no factor in common with a power of `X`. -/
theorem isCoprime_generator : IsCoprime (X ^ 8 + X ^ 2 + X + 1 : (ZMod 2)[X]) X := by
  refine ⟨1, X ^ 7 + X + 1, ?_⟩
  have htwo : (2 : (ZMod 2)[X]) = 0 := CharTwo.two_eq_zero
  linear_combination (X ^ 8 + X ^ 2 + X) * htwo

/-- From one on the register does not come back to one in fewer than 127 shifts. -/
theorem order_of_shift : ∀ m < 127, 0 < m → (Crc.shift feedback)^[m] 1 ≠ 1 := by
  decide +kernel

/-! ### What the checksum computes -/

/-- The bits of a message, byte by byte, each byte from its most significant bit down. -/
def bitsOf (data : List UInt8) : List Bool :=
  Crc.bits (data.map UInt8.toBitVec)

/-- A byte at the end of a message that is the checksum of the message so far empties the
register. -/
theorem crc8_append_self (data : List UInt8) : crc8 (data ++ [crc8 data]) = 0 := by
  rw [crc8, List.foldl_concat, ← crc8, UInt8.xor_self]
  decide

/-- **`crc8` is the CRC it claims to be**: for every message, the remainder of the message
moved up by eight bits modulo `X ^ 8 + X ^ 2 + X + 1`. So a message followed by its checksum
has the checksum zero. -/
theorem crc8_isRemainder (data : List UInt8) :
    Crc.ofBits (bitsOf [crc8 data]) =
        (Crc.ofBits (bitsOf data) * X ^ 8) %ₘ (X ^ 8 + X ^ 2 + X + 1) ∧
      crc8 (data ++ [crc8 data]) = 0 := by
  have hword : bitsOf [crc8 data] = Crc.msbBits (crc8 data).toBitVec := List.flatMap_singleton ..
  refine ⟨?_, crc8_append_self data⟩
  rw [hword, toBitVec_crc8, Crc.ofBits_crc, generator_feedback]
  rfl

/-! ### What the checksum notices -/

/-- The bit errors that an eight-bit checksum can be expected to notice: an odd number of
flipped bits, flipped bits within eight consecutive positions, or two flipped bits less than
127 positions apart. -/
def Noticeable (e : List Bool) : Prop :=
  Odd (Crc.ones e).card ∨ (∃ k, Crc.ones e ⊆ Finset.Ico k (k + 8)) ∨
    ∃ i j, i < j ∧ j - i < 127 ∧ Crc.ones e = {i, j}

/-- The generator divides none of these errors. -/
theorem Noticeable.not_dvd {e : List Bool} (h : Noticeable e) (hne : (Crc.ones e).Nonempty) :
    ¬ Crc.generator feedback ∣ Crc.ofBits e := by
  have hgen := generator_feedback
  have hcoprime : IsCoprime (Crc.generator feedback) X := hgen ▸ isCoprime_generator
  rcases h with hodd | ⟨k, hk⟩ | ⟨i, j, hij, hlt, he⟩
  · exact Crc.not_dvd_of_odd (hgen ▸ factor_generator) hodd
  · have hdeg : (Crc.generator feedback).natDegree = 8 := by
      rw [hgen]
      compute_degree!
    exact Crc.not_dvd_of_burst (Crc.monic_generator feedback) hcoprime hne (hdeg ▸ hk)
  · refine Crc.not_dvd_of_two hcoprime hij he fun hdvd => ?_
    have hback := (Crc.dvd_X_pow_add_one_iff feedback (by decide) (j - i)).mp hdvd
    exact order_of_shift (j - i) hlt (Nat.sub_pos_of_lt hij) hback

/-- **The corruptions that `crc8` notices.** Whatever the message: if the flipped bits of the
codeword, the message followed by its checksum, are of an odd number, or lie within eight
consecutive positions, or are two less than 127 positions apart, then the corrupted message
does not have the corrupted last byte as its checksum. -/
theorem crc8_detects {data errs : List UInt8} {err : UInt8} (hlen : data.length = errs.length)
    (hne : (Crc.ones (bitsOf (errs ++ [err]))).Nonempty)
    (h : Noticeable (bitsOf (errs ++ [err]))) :
    crc8 (List.zipWith (· ^^^ ·) data errs) ≠ crc8 data ^^^ err := by
  intro heq
  have hword : ∀ d c, crc8 d = c ↔ Crc.generator feedback ∣ Crc.ofBits (bitsOf (d ++ [c])) := by
    intro d c
    rw [← UInt8.toBitVec_inj, toBitVec_crc8, Crc.crc_eq_iff_dvd, bitsOf, List.map_append]
    rfl
  -- the corrupted codeword is the codeword plus the error
  have hcode : bitsOf (List.zipWith (· ^^^ ·) data errs ++ [crc8 data ^^^ err]) =
      Crc.bits (List.zipWith (· ^^^ ·) ((data ++ [crc8 data]).map UInt8.toBitVec)
        ((errs ++ [err]).map UInt8.toBitVec)) := by
    rw [bitsOf, List.zipWith_map, List.zipWith_append hlen, List.map_append, List.map_zipWith]
    rfl
  have hdvd := (hword _ _).mp heq
  rw [hcode, Crc.ofBits_bits_xor (by simp [hlen])] at hdvd
  exact h.not_dvd hne ((dvd_add_right ((hword data _).mp rfl)).mp hdvd)

/-- Two flipped bits, one in the message and one in the checksum. -/
theorem two_flips_detected :
    crc8 (List.zipWith (· ^^^ ·) [0x31, 0x32, 0x33] [0x00, 0x10, 0x00]) ≠
      crc8 [0x31, 0x32, 0x33] ^^^ 0x04 :=
  crc8_detects rfl (by decide +kernel) (Or.inr (Or.inr ⟨11, 29, by decide, by decide, by
    decide +kernel⟩))

end FaultForge
