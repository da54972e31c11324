import Mathlib.Algebra.CharP.Two
import Mathlib.Algebra.Field.ZMod
import Mathlib.Data.ZMod.Basic
import Mathlib.RingTheory.AdjoinRoot

/-!
# Cyclic Redundancy Checks

A shift register of width `w` with feedback word `p` computes remainders modulo the
polynomial `X ^ w + p` over the field with two elements (`generator`). A bit string is read
as a polynomial with its first bit as the highest coefficient (`ofBits`), and a word as the
string of its bits from the most significant one down (`msbBits`).

The residue of a word modulo the generator is what the register really holds: a shift
multiplies it by the root (`residue_shift`), exclusive or adds (`residue_xor`), and words
with one residue are equal (`residue_injective`).

## Main results

* `ofBits_crc`: the register ends with the remainder of the message, shifted by `w`.
* `crc_eq_iff_dvd`: a word is the checksum of a message iff the generator divides the
  codeword.
* `dvd_X_pow_add_one_iff`: the order of `X` modulo the generator is found by shifting.
* `not_dvd_of_odd`, `not_dvd_of_burst`, `not_dvd_of_two`: the error patterns that are no
  multiples of a generator.
-/

namespace Crc

open Polynomial

/-! ### Bit strings -/

/-- The polynomial of a bit string, highest coefficient first. -/
noncomputable def ofBits : List Bool → (ZMod 2)[X]
  | [] => 0
  | b :: bs => (if b then X ^ bs.length else 0) + ofBits bs

/-- The positions of the ones in a bit string. -/
def ones (bs : List Bool) : Finset ℕ :=
  (Finset.range bs.length).filter fun i => bs[i]? = some true

/-- The positions are within the string. -/
theorem lt_of_mem_ones {bs : List Bool} {i : ℕ} (hi : i ∈ ones bs) : i < bs.length :=
  Finset.mem_range.mp (Finset.mem_filter.mp hi).1

/-- The coefficients are the bits, the last one lowest. -/
theorem coeff_ofBits (bs : List Bool) (k : ℕ) :
    (ofBits bs).coeff k = if bs.reverse[k]? = some true then 1 else 0 := by
  induction bs with
  | nil => simp [ofBits]
  | cons b bs ih =>
      rw [ofBits, coeff_add, ih, List.reverse_cons]
      rcases Nat.lt_trichotomy k bs.length with hk | rfl | hk
      · rw [List.getElem?_append_left (by simpa using hk)]
        cases b <;> simp [coeff_X_pow, hk.ne]
      · cases b <;> simp
      · have hout : (bs.reverse ++ [b])[k]? = none := List.getElem?_eq_none (by simp; omega)
        have hrest : bs.reverse[k]? = none := List.getElem?_eq_none (by simp; omega)
        cases b <;> simp [coeff_X_pow, hout, hrest, hk.ne']

/-- The degree is below the number of bits. -/
theorem degree_ofBits_lt (bs : List Bool) : (ofBits bs).degree < bs.length := by
  rw [degree_lt_iff_coeff_zero]
  intro k hk
  rw [coeff_ofBits, List.getElem?_eq_none (by simpa using hk)]
  rfl

/-- A string in two parts: the first one is shifted by the length of the second. -/
theorem ofBits_append (as bs : List Bool) :
    ofBits (as ++ bs) = ofBits as * X ^ bs.length + ofBits bs := by
  induction as with
  | nil => simp [ofBits]
  | cons a as ih =>
      rw [List.cons_append, ofBits, ofBits, ih, List.length_append, add_mul, add_assoc]
      cases a <;> simp [pow_add]

/-- One power for each one. -/
theorem ofBits_eq_sum (bs : List Bool) :
    ofBits bs = ∑ i ∈ ones bs, X ^ (bs.length - 1 - i) := by
  rw [ones, Finset.sum_filter]
  induction bs with
  | nil => simp [ofBits]
  | cons b bs ih =>
      have hrest : ∀ i, (b :: bs).length - 1 - (i + 1) = bs.length - 1 - i := by
        intro i
        rw [List.length_cons]
        omega
      rw [ofBits, ih, List.length_cons, Finset.sum_range_succ', add_comm]
      refine congrArg₂ (· + ·) (Finset.sum_congr rfl fun i _ => ?_) (by simp)
      rw [← List.length_cons (a := b), hrest, List.getElem?_cons_succ]

/-! ### Words -/

variable {w : ℕ}

/-- The bits of a word, from the most significant one down. -/
def msbBits (c : BitVec w) : List Bool :=
  (List.range w).map c.getMsbD

/-- A word has as many bits as its width. -/
@[simp] theorem length_msbBits (c : BitVec w) : (msbBits c).length = w := by
  simp [msbBits]

/-- The coefficients of a word are its bits. -/
theorem coeff_msbBits (c : BitVec w) (k : ℕ) :
    (ofBits (msbBits c)).coeff k = if c.getLsbD k then 1 else 0 := by
  rw [coeff_ofBits]
  by_cases hk : k < w
  · rw [List.getElem?_reverse (by simpa using hk), length_msbBits, msbBits, List.getElem?_map,
      List.getElem?_range (by omega), Option.map_some, BitVec.getMsbD_eq_getLsbD]
    simp [show w - 1 - k < w by omega, show w - 1 - (w - 1 - k) = k by omega]
  · rw [List.getElem?_eq_none (by simpa using hk), BitVec.getLsbD_of_ge c k (by omega)]
    simp

/-- A word is its polynomial. -/
theorem ofBits_msbBits_injective : Function.Injective fun c : BitVec w => ofBits (msbBits c) := by
  intro a b h
  refine BitVec.eq_of_getLsbD_eq fun k _ => ?_
  have hk := congrArg (fun q : (ZMod 2)[X] => q.coeff k) h
  simp only [coeff_msbBits] at hk
  cases ha : a.getLsbD k <;> cases hb : b.getLsbD k <;> simp_all

/-- The word zero is the polynomial zero. -/
theorem ofBits_zero : ofBits (msbBits (0 : BitVec w)) = 0 := by
  ext k
  simp [coeff_msbBits]

/-- Addition of words is addition of polynomials. -/
theorem ofBits_xor (a b : BitVec w) :
    ofBits (msbBits (a ^^^ b)) = ofBits (msbBits a) + ofBits (msbBits b) := by
  ext k
  rw [coeff_add, coeff_msbBits, coeff_msbBits, coeff_msbBits, BitVec.getLsbD_xor]
  cases a.getLsbD k <;> cases b.getLsbD k <;> decide

/-- Shifting a word multiplies by `X`, but for the bit that is lost. -/
theorem ofBits_shiftLeft (c : BitVec w) :
    ofBits (msbBits (c <<< 1)) = X * ofBits (msbBits c) + if c.msb then X ^ w else 0 := by
  ext k
  have hlost : (if c.msb then X ^ w else 0 : (ZMod 2)[X]).coeff k =
      if c.msb && decide (k = w) then 1 else 0 := by
    cases c.msb <;> simp [coeff_X_pow]
  rw [coeff_add, coeff_msbBits, BitVec.getLsbD_shiftLeft, hlost]
  cases k with
  | zero =>
      have hempty : c.msb = true → ¬ 0 = w := by
        rintro h rfl
        simp [BitVec.eq_nil c] at h
      cases h : c.msb <;> simp_all
  | succ k =>
      rw [coeff_X_mul, coeff_msbBits]
      rcases Nat.lt_trichotomy (k + 1) w with hk | hk | hk
      · simp [hk, hk.ne]
      · have hmsb : c.getLsbD k = c.msb := by
          rw [BitVec.msb_eq_getLsbD_last, show w - 1 = k by omega]
        rw [hmsb]
        cases c.msb <;> simp [hk, CharTwo.add_self_eq_zero]
      · simp [hk.ne', BitVec.getLsbD_of_ge c k (by omega), show ¬ k + 1 < w by omega]

/-! ### The register -/

variable (p : BitVec w)

/-- Shift the register by one bit, and feed the bit that falls out back. -/
def shift (c : BitVec w) : BitVec w :=
  if c.msb then (c <<< 1) ^^^ p else c <<< 1

/-- Take in a word. -/
def feed (c b : BitVec w) : BitVec w :=
  (shift p)^[w] (c ^^^ b)

/-- The checksum of a message, from an empty register on. -/
def crc (ws : List (BitVec w)) : BitVec w :=
  ws.foldl (feed p) 0

/-- The polynomial that the register divides by. -/
noncomputable def generator : (ZMod 2)[X] :=
  X ^ w + ofBits (msbBits p)

/-- The generator is monic. -/
theorem monic_generator : (generator p).Monic :=
  monic_X_pow_add (by simpa using degree_ofBits_lt (msbBits p))

/-- A word has a smaller degree than the generator. -/
theorem degree_word_lt (c : BitVec w) : (ofBits (msbBits c)).degree < (generator p).degree := by
  have hlt : ∀ c : BitVec w, (ofBits (msbBits c)).degree < w := fun c => by
    simpa using degree_ofBits_lt (msbBits c)
  have hdeg : (generator p).degree = w := by
    rw [generator, degree_add_eq_left_of_degree_lt (by rw [degree_X_pow]; exact hlt p),
      degree_X_pow]
  rw [hdeg]
  exact hlt c

/-- **One shift** multiplies by `X` modulo the generator. -/
theorem ofBits_shift (c : BitVec w) :
    ofBits (msbBits (shift p c)) =
      X * ofBits (msbBits c) + if c.msb then generator p else 0 := by
  rw [shift]
  cases h : c.msb with
  | false => simp [ofBits_shiftLeft, h]
  | true =>
      rw [if_pos rfl, if_pos rfl, ofBits_xor, ofBits_shiftLeft, h, if_pos rfl, generator,
        add_assoc]

/-! ### Residues -/

/-- The residue of a word modulo the generator. -/
noncomputable def residue (c : BitVec w) : AdjoinRoot (generator p) :=
  AdjoinRoot.mk (generator p) (ofBits (msbBits c))

/-- Residues add up. -/
theorem residue_xor (a b : BitVec w) : residue p (a ^^^ b) = residue p a + residue p b := by
  rw [residue, ofBits_xor, map_add]
  rfl

/-- A shift multiplies the residue by the root. -/
theorem residue_shift (c : BitVec w) :
    residue p (shift p c) = AdjoinRoot.root (generator p) * residue p c := by
  rw [residue, ofBits_shift, map_add, map_mul, AdjoinRoot.mk_X, residue]
  split <;> simp

/-- So any number of shifts multiply it by a power of the root. -/
theorem residue_iterate (k : ℕ) (c : BitVec w) :
    residue p ((shift p)^[k] c) = AdjoinRoot.root (generator p) ^ k * residue p c := by
  induction k with
  | zero => simp
  | succ k ih => rw [Function.iterate_succ_apply', residue_shift, ih, pow_succ', mul_assoc]

/-- A word is its residue, since it is a remainder already. -/
theorem residue_injective : Function.Injective (residue p) := by
  intro a b h
  have hdvd := AdjoinRoot.mk_eq_mk.mp h
  have hdeg : (ofBits (msbBits a) - ofBits (msbBits b)).degree < (generator p).degree :=
    (degree_sub_le _ _).trans_lt (max_lt (degree_word_lt p a) (degree_word_lt p b))
  refine ofBits_msbBits_injective ?_
  by_contra hne
  exact (monic_generator p).not_dvd_of_degree_lt (sub_ne_zero.mpr hne) hdeg hdvd

/-- Shifting is linear. -/
theorem iterate_shift_xor (k : ℕ) (a b : BitVec w) :
    (shift p)^[k] (a ^^^ b) = (shift p)^[k] a ^^^ (shift p)^[k] b := by
  apply residue_injective p
  rw [residue_xor, residue_iterate, residue_iterate, residue_iterate, residue_xor, mul_add]

/-- **The register tells the order of `X`**: a power of `X` is congruent to one iff that many
shifts bring the register back to one. -/
theorem dvd_X_pow_add_one_iff (hw : 0 < w) (m : ℕ) :
    generator p ∣ X ^ m + 1 ↔ (shift p)^[m] 1 = 1 := by
  have hone : residue p 1 = 1 := by
    have hbits : ofBits (msbBits (1 : BitVec w)) = 1 := by
      ext k
      have hbit : (1 : BitVec w).getLsbD k = (decide (0 < w) && decide (k = 0)) :=
        BitVec.getLsbD_one
      rw [coeff_msbBits, coeff_one, hbit]
      simp [hw]
    rw [residue, hbits, map_one]
  rw [← (residue_injective p).eq_iff, residue_iterate, hone, mul_one, ← AdjoinRoot.mk_X,
    ← map_pow, ← map_one (AdjoinRoot.mk (generator p)), AdjoinRoot.mk_eq_mk, CharTwo.sub_eq_add]

/-! ### The checksum -/

/-- The bits of a message. -/
def bits (ws : List (BitVec w)) : List Bool :=
  ws.flatMap msbBits

/-- A word behind a message moves the message up by its width. -/
theorem mk_bits_concat (ws : List (BitVec w)) (b : BitVec w) :
    AdjoinRoot.mk (generator p) (ofBits (bits (ws ++ [b]))) =
      AdjoinRoot.mk (generator p) (ofBits (bits ws) * X ^ w) + residue p b := by
  rw [bits, List.flatMap_append, List.flatMap_singleton, ofBits_append, map_add, length_msbBits]
  rfl

/-- **The register holds the message**, moved up by its width. -/
theorem residue_crc (ws : List (BitVec w)) :
    residue p (crc p ws) = AdjoinRoot.mk (generator p) (ofBits (bits ws) * X ^ w) := by
  induction ws using List.reverseRecOn with
  | nil => rw [crc, List.foldl_nil, residue, ofBits_zero, bits, List.flatMap_nil, ofBits, zero_mul]
  | append_singleton ws b ih =>
      rw [map_mul, mk_bits_concat, ← ih, map_pow, AdjoinRoot.mk_X, crc, List.foldl_concat, feed,
        residue_iterate, residue_xor, mul_comm]
      rfl

/-- **The checksum is the remainder** of the message, moved up by the width of the register. -/
theorem ofBits_crc (ws : List (BitVec w)) :
    ofBits (msbBits (crc p ws)) = (ofBits (bits ws) * X ^ w) %ₘ generator p := by
  have hself := (modByMonic_eq_self_iff (monic_generator p)).mpr (degree_word_lt p (crc p ws))
  have hdvd := AdjoinRoot.mk_eq_mk.mp (residue_crc p ws)
  exact hself.symm.trans (modByMonic_eq_of_dvd_sub (monic_generator p) hdvd)

/-- **Codewords are the multiples of the generator.** -/
theorem crc_eq_iff_dvd (ws : List (BitVec w)) (c : BitVec w) :
    crc p ws = c ↔ generator p ∣ ofBits (bits (ws ++ [c])) := by
  have htwo : residue p c + residue p c = 0 := by
    rw [residue, ← map_add, CharTwo.add_self_eq_zero, map_zero]
  rw [← AdjoinRoot.mk_eq_zero, mk_bits_concat, ← residue_crc, ← (residue_injective p).eq_iff]
  constructor
  · intro h
    rw [h, htwo]
  · intro h
    exact add_right_cancel (h.trans htwo.symm)

/-- Errors add to a message. -/
theorem ofBits_bits_xor {ws es : List (BitVec w)} (h : ws.length = es.length) :
    ofBits (bits (List.zipWith (· ^^^ ·) ws es)) = ofBits (bits ws) + ofBits (bits es) := by
  have hbits : ∀ ws : List (BitVec w), (bits ws).length = ws.length * w := fun ws => by
    simp [bits, List.length_flatMap]
  induction ws generalizing es with
  | nil => cases es <;> simp_all [bits, ofBits]
  | cons a ws ih =>
      cases es with
      | nil => simp at h
      | cons b es =>
          have h : ws.length = es.length := by simpa using h
          have hcons : ∀ (c : BitVec w) (ws : List (BitVec w)),
              bits (c :: ws) = msbBits c ++ bits ws := fun _ _ => rfl
          rw [List.zipWith_cons_cons, hcons, hcons, hcons, ofBits_append, ofBits_append,
            ofBits_append, ih h, ofBits_xor, hbits, hbits, hbits, List.length_zipWith, ← h,
            min_self]
          ring

/-! ### Errors that are noticed -/

section Errors

variable {g : (ZMod 2)[X]} {e : List Bool}

/-- A generator with the factor `X + 1` divides no error with an odd number of bits. -/
theorem not_dvd_of_odd (hg : X + 1 ∣ g) (he : Odd (ones e).card) : ¬ g ∣ ofBits e := by
  intro hdvd
  have hroot : (X + 1 : (ZMod 2)[X]).eval 1 = 0 := by
    rw [eval_add, eval_X, eval_one]
    exact CharTwo.add_self_eq_zero 1
  have heval : (ofBits e).eval 1 = 0 := eval_eq_zero_of_dvd_of_eval_eq_zero (hg.trans hdvd) hroot
  rw [ofBits_eq_sum, eval_finsetSum] at heval
  simp only [eval_pow, eval_X, one_pow, Finset.sum_const, nsmul_eq_mul, mul_one] at heval
  rw [ZMod.natCast_eq_zero_iff_even] at heval
  exact Nat.not_even_iff_odd.mpr he heval

/-- A generator without the factor `X` divides no error that is confined to as many
consecutive bits as its degree. -/
theorem not_dvd_of_burst (hmonic : g.Monic) (hg : IsCoprime g X) (hne : (ones e).Nonempty) {k : ℕ}
    (hk : ones e ⊆ Finset.Ico k (k + g.natDegree)) : ¬ g ∣ ofBits e := by
  intro hdvd
  -- the power of `X` that all bits of the error share
  obtain ⟨m, hm⟩ : ∃ m, m = e.length - (k + g.natDegree) := ⟨_, rfl⟩
  have hexp : ∀ i ∈ ones e, m + (e.length - 1 - i - m) = e.length - 1 - i ∧
      e.length - 1 - i - m < g.natDegree := by
    intro i hi
    have hlt := lt_of_mem_ones hi
    have hwindow := Finset.mem_Ico.mp (hk hi)
    omega
  have hfactor : ofBits e = X ^ m * ∑ i ∈ ones e, X ^ (e.length - 1 - i - m) := by
    rw [ofBits_eq_sum, Finset.mul_sum]
    refine Finset.sum_congr rfl fun i hi => ?_
    rw [← pow_add, (hexp i hi).1]
  rw [hfactor] at hdvd
  obtain ⟨i, hi⟩ := hne
  refine hmonic.not_dvd_of_natDegree_lt (fun hzero => ?_) ?_ (hg.pow_right.dvd_of_dvd_mul_left hdvd)
  · have hcoeff := congrArg (fun q : (ZMod 2)[X] => q.coeff (e.length - 1 - i - m)) hzero
    simp only [finsetSum_coeff, coeff_X_pow, coeff_zero] at hcoeff
    rw [Finset.sum_eq_single_of_mem i hi] at hcoeff
    · simp at hcoeff
    · intro j hj hji
      have hlti := lt_of_mem_ones hi
      have hltj := lt_of_mem_ones hj
      have hexpi := hexp i hi
      have hexpj := hexp j hj
      rw [if_neg (by omega)]
  · have hi := (hexp i hi).2
    refine (natDegree_sum_le_of_forall_le (n := g.natDegree - 1) _ _ fun j hj => ?_).trans_lt
      (by omega)
    have hj := (hexp j hj).2
    rw [natDegree_X_pow]
    omega

/-- A generator without the factor `X` divides no error of two bits at a distance that is no
multiple of the order of `X`. -/
theorem not_dvd_of_two (hg : IsCoprime g X) {i j : ℕ} (hij : i < j) (he : ones e = {i, j})
    (horder : ¬ g ∣ X ^ (j - i) + 1) : ¬ g ∣ ofBits e := by
  intro hdvd
  have hj : j < e.length := lt_of_mem_ones (he ▸ by simp)
  have hfactor : ofBits e = X ^ (e.length - 1 - j) * (X ^ (j - i) + 1) := by
    rw [ofBits_eq_sum, he, Finset.sum_pair hij.ne, mul_add, ← pow_add, mul_one]
    rw [show e.length - 1 - j + (j - i) = e.length - 1 - i by omega]
  rw [hfactor] at hdvd
  exact horder (hg.pow_right.dvd_of_dvd_mul_left hdvd)

end Errors

end Crc
