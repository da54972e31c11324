import FaultForge.Checksum
import FaultForge.Misread

/-!
# Which Frames Are Accepted

The parser takes the last byte that the checksum covers for the checksum (`FaultForge.Parser`), so
a frame is accepted if that byte happens to equal the checksum of all of them. How often does it?
The checksum is that of a generator with the factor `X + 1`, so it has an odd number of ones iff
its message has (`oddOnes_crc8`), and the equation for the last byte has no solution if the number
of ones before it is odd. If it is even there are two solutions: one is found by a polynomial in
the shift (`lastByte`), and eight shifts leave just two registers as they are
(`shift_eq_self_iff`).

So of the frames that differ in the last byte of their payload, the parser accepts two, or none.

## Main results

* `Frame.accepted_iff`: which frames a new parser accepts.
* `two_last_bytes_accepted`: how many of the last bytes are accepted.
-/

namespace FaultForge

/-! ### Parity -/

/-- The message has an odd number of ones. -/
def oddOnes (data : List UInt8) : Bool :=
  (bitsOf data).foldl xor false

/-- An `xor` over a list may begin with either value. -/
theorem foldl_xor (bits : List Bool) (s : Bool) :
    bits.foldl xor s = (s ^^ bits.foldl xor false) := by
  induction bits generalizing s with
  | nil => simp
  | cons b bits ih => rw [List.foldl_cons, List.foldl_cons, ih, ih (false ^^ b)]; simp

/-- The parity of a stretch is that of its two parts together. -/
theorem oddOnes_append (data more : List UInt8) :
    oddOnes (data ++ more) = (oddOnes data ^^ oddOnes more) := by
  have hbits : bitsOf (data ++ more) = bitsOf data ++ bitsOf more := by
    simp [bitsOf, Crc.bits]
  rw [oddOnes, hbits, List.foldl_append, foldl_xor]
  rfl

/-- Bit by bit, exclusive or keeps count. -/
theorem foldl_xor_xor (f g : ℕ → Bool) (ks : List ℕ) (s t : Bool) :
    ks.foldl (fun acc k => acc ^^ (f k ^^ g k)) (s ^^ t) =
      (ks.foldl (fun acc k => acc ^^ f k) s ^^ ks.foldl (fun acc k => acc ^^ g k) t) := by
  induction ks generalizing s t with
  | nil => rfl
  | cons k ks ih =>
      rw [List.foldl_cons, List.foldl_cons, List.foldl_cons, ← ih]
      congr 1
      cases s <;> cases t <;> cases f k <;> cases g k <;> rfl

/-- The parity of a byte, bit by bit. -/
theorem oddOnes_singleton (b : UInt8) :
    oddOnes [b] = (List.range 8).foldl (fun acc k => acc ^^ b.toBitVec.getMsbD k) false := by
  rw [oddOnes, bitsOf, List.map_singleton, Crc.bits, List.flatMap_singleton, Crc.msbBits,
    List.foldl_map]

/-- Parity is linear. -/
theorem oddOnes_xor (a b : UInt8) : oddOnes [a ^^^ b] = (oddOnes [a] ^^ oddOnes [b]) := by
  simp only [oddOnes_singleton, UInt8.toBitVec_xor, BitVec.getMsbD_xor]
  exact foldl_xor_xor _ _ _ false false

/-- A fact about every byte, checked for the 256 of them. -/
theorem forall_byte (P : UInt8 → Prop) (h : ∀ c : Fin 256, P (UInt8.ofNat c)) (b : UInt8) :
    P b := by
  simpa using h ⟨b.toNat, b.toNat_lt⟩

/-- The feedback word has three ones, so a bit that is lost is made up for. -/
theorem oddOnes_crcShift (c : UInt8) : oddOnes [crcShift c] = oddOnes [c] :=
  forall_byte (fun c => oddOnes [crcShift c] = oddOnes [c]) (by decide +kernel) c

/-- So any number of shifts keeps the parity. -/
theorem oddOnes_shift (k : ℕ) (c : UInt8) : oddOnes [crcShift^[k] c] = oddOnes [c] := by
  induction k with
  | zero => rfl
  | succ k ih => rw [Function.iterate_succ_apply', oddOnes_crcShift, ih]

/-- One more byte is added to the register and shifted through it. -/
theorem crc8_concat (data : List UInt8) (b : UInt8) :
    crc8 (data ++ [b]) = crcShift^[8] (crc8 data ^^^ b) := by
  rw [crc8, List.foldl_concat]
  rfl

/-- **The checksum has the parity of its message.** -/
theorem oddOnes_crc8 (data : List UInt8) : oddOnes [crc8 data] = oddOnes data := by
  induction data using List.reverseRecOn with
  | nil => decide
  | append_singleton data b ih =>
      rw [crc8_concat, oddOnes_shift, oddOnes_xor, ih, oddOnes_append]

/-! ### The last byte -/

/-- Shifting a byte through the register is linear. -/
theorem shift_xor (a b : UInt8) : crcShift^[8] (a ^^^ b) = crcShift^[8] a ^^^ crcShift^[8] b := by
  rw [← UInt8.toBitVec_inj, UInt8.toBitVec_xor, toBitVec_iterate, toBitVec_iterate,
    toBitVec_iterate, UInt8.toBitVec_xor, Crc.iterate_shift_xor]

/-- Eight shifts leave two registers as they are. -/
theorem shift_eq_self_iff (c : UInt8) : crcShift^[8] c = c ↔ c = 0 ∨ c = 0xFD :=
  forall_byte (fun c => crcShift^[8] c = c ↔ c = 0 ∨ c = 0xFD) (by decide +kernel) c

/-- A byte that is the checksum of itself behind a message with this checksum, if there is
one. -/
def lastByte (c : UInt8) : UInt8 :=
  crcShift^[8] (crcShift^[5] c ^^^ crcShift^[3] c ^^^ crcShift c)

/-- Behind a register of even parity it is one. -/
theorem shift_lastByte {c : UInt8} (h : oddOnes [c] = false) :
    crcShift^[8] (c ^^^ lastByte c) = lastByte c :=
  forall_byte (fun c => oddOnes [c] = false → crcShift^[8] (c ^^^ lastByte c) = lastByte c)
    (by decide +kernel) c h

/-- **Two bytes, or none**, are their own checksum behind a message. -/
theorem shift_xor_eq_iff (c x : UInt8) :
    crcShift^[8] (c ^^^ x) = x ↔
      oddOnes [c] = false ∧ (x = lastByte c ∨ x = lastByte c ^^^ 0xFD) := by
  constructor
  · intro hx
    have heven : oddOnes [c] = false := by
      have hparity := congrArg (fun b => oddOnes [b]) hx
      simp only [oddOnes_shift, oddOnes_xor] at hparity
      revert hparity
      cases oddOnes [c] <;> cases oddOnes [x] <;> simp
    -- two solutions differ by a register that eight shifts leave as it is
    have hdiff : crcShift^[8] (lastByte c ^^^ x) = lastByte c ^^^ x := by
      have hsum : lastByte c ^^^ x = (c ^^^ lastByte c) ^^^ (c ^^^ x) := by
        rw [UInt8.xor_comm c, UInt8.xor_assoc, ← UInt8.xor_assoc c, UInt8.xor_self,
          UInt8.zero_xor]
      conv_lhs => rw [hsum, shift_xor, shift_lastByte heven, hx]
    refine ⟨heven, (shift_eq_self_iff _).mp hdiff |>.imp ?_ ?_⟩
    · intro hzero
      exact (UInt8.xor_eq_zero_iff.mp hzero).symm
    · intro hkernel
      rw [← hkernel, ← UInt8.xor_assoc, UInt8.xor_self, UInt8.zero_xor]
  · rintro ⟨heven, rfl | rfl⟩
    · exact shift_lastByte heven
    · rw [← UInt8.xor_assoc, shift_xor, shift_lastByte heven,
        (shift_eq_self_iff 0xFD).mpr (.inr rfl)]

/-! ### Frames -/

namespace Frame

/-- A new parser that is given the bytes of the frame reports a frame. -/
def Accepted (f : Frame) : Prop :=
  ∃ p outs kind full len fits, FrameParser.new.run f.bytes = some (p, outs) ∧
    some (.frame kind full len fits) ∈ outs

/-- **Which frames a new parser accepts.** -/
theorem accepted_iff (f : Frame) : f.Accepted ↔ f.Passes := by
  obtain ⟨p, last, hrun, hlast⟩ := f.run_alone
  constructor
  · rintro ⟨p', outs, kind, full, len, fits, hrun', hmem⟩
    obtain ⟨-, rfl⟩ := Prod.mk.inj (Option.some.inj (hrun.symm.trans hrun'))
    by_contra hnot
    rw [verdict_of_not_passes hnot] at hmem
    rcases hlast with rfl | rfl <;> simp at hmem
  · intro h
    refine ⟨p, _, f.kind, zeroPadded f.payload f.fits, f.payload.length, f.fits, hrun, ?_⟩
    rw [verdict_of_passes h]
    simp

/-- The frame with another last byte of its payload. -/
def withLast (f : Frame) (x : UInt8) : Frame where
  kind := f.kind
  payload := f.payload.dropLast ++ [x]
  fits := by
    have hfits := f.fits
    have hbuffer : maxPayload = 16 := rfl
    rw [List.length_append, List.length_dropLast, List.length_singleton]
    omega

/-- What the checksum covers before that byte. -/
def beforeLast (f : Frame) : List UInt8 :=
  UInt8.ofNat (f.payload.dropLast.length + 1) :: f.kind :: f.payload.dropLast

/-- A frame passes iff its last byte is a fixed point of the checksum of the bytes before it. -/
theorem passes_withLast_iff (f : Frame) (x : UInt8) :
    (f.withLast x).Passes ↔ crcShift^[8] (crc8 f.beforeLast ^^^ x) = x := by
  have hcovered : covered (f.withLast x).kind (f.withLast x).payload = f.beforeLast ++ [x] := by
    simp [covered, withLast, beforeLast]
  have hlast : ((f.withLast x).kind :: (f.withLast x).payload).getLast
      (List.cons_ne_nil _ _) = x := by
    simp [withLast]
  rw [Passes, hlast, crc, hcovered, crc8_concat, eq_comm]

/-- A frame without a payload passes if its kind is its own checksum. -/
theorem passes_empty_iff {f : Frame} (h : f.payload = []) :
    f.Passes ↔ f.kind = 0 ∨ f.kind = 0xFD := by
  have hcrc : f.crc = crcShift^[8] f.kind := by
    rw [crc, h]
    exact (crc8_concat [0] f.kind).trans (congrArg _ (UInt8.zero_xor))
  have hlast : (f.kind :: f.payload).getLast (List.cons_ne_nil _ _) = f.kind := by
    simp only [h, List.getLast_singleton]
  rw [Passes, hlast, hcrc, eq_comm, shift_eq_self_iff]

end Frame

/-- **Two last bytes are accepted, or none.** Take any kind and any payload but for its last byte.
If there is an odd number of ones in them and the length, the parser accepts the frame with none
of the 256 last bytes; otherwise with exactly two of them, which differ in all but one of their
bits. Without a payload, it accepts just the kinds 0 and 0xFD, none of which is in use. -/
theorem two_last_bytes_accepted (f : Frame) :
    (oddOnes f.beforeLast = true → ∀ x, ¬ (f.withLast x).Accepted) ∧
      (oddOnes f.beforeLast = false →
        ∃ x, ∀ y, (f.withLast y).Accepted ↔ y = x ∨ y = x ^^^ 0xFD) ∧
      (f.payload = [] → (f.Accepted ↔ f.kind = 0 ∨ f.kind = 0xFD)) := by
  simp only [Frame.accepted_iff, Frame.passes_withLast_iff, shift_xor_eq_iff, oddOnes_crc8]
  refine ⟨fun hodd x => ?_, fun heven => ⟨lastByte (crc8 f.beforeLast), fun y => ?_⟩,
    Frame.passes_empty_iff⟩
  · simp [hodd]
  · simp [heven]

end FaultForge
