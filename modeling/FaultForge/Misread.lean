import Mathlib.Data.List.ReduceOption
import FaultForge.Framing

/-!
# Whole Frames through the Parser

What the streaming parser makes of encoded frames that reach it undisturbed. It settles a
frame one byte early, on the byte before the checksum (`FaultForge.Framing`), so every frame
gives two outcomes: the verdict on its bytes up to there, and what becomes of the checksum,
which is the first byte that the parser sees afterwards. As long as that byte is no sync byte it
is garbage, and the parser is empty again where the next frame starts (`feeds_frames`).

The verdict accepts a frame only if its last byte before the checksum happens to equal the
checksum (`Passes`).

## Main results

* `Frame.run_alone`: the outcomes of one encoded frame.
* `Frame.feeds_frames`: the outcomes of a stream of encoded frames.
* `Frame.run_frames`: the same of the parser, which does not panic.
-/

namespace FaultForge

open Transducer

namespace Frame

/-- The checksum that the encoder puts behind the frame. -/
def crc (f : Frame) : UInt8 :=
  crc8 (covered f.kind f.payload)

/-- The last byte that the checksum covers happens to equal it. -/
def Passes (f : Frame) : Prop :=
  (f.kind :: f.payload).getLast (List.cons_ne_nil _ _) = f.crc

instance (f : Frame) : Decidable f.Passes :=
  inferInstanceAs (Decidable (_ = _))

/-- The checksum is not taken for the beginning of a frame. -/
def Apart (f : Frame) : Prop :=
  f.crc ≠ sync

instance (f : Frame) : Decidable f.Apart :=
  inferInstanceAs (Decidable (_ ≠ _))

/-- What the parser reports on the byte before the checksum. -/
def verdict (f : Frame) : Decoded :=
  FaultForge.verdict (UInt8.ofNat f.payload.length) f.kind f.payload f.fits

/-- A frame whose last payload byte is its checksum comes out as a frame, with that byte. -/
theorem verdict_of_passes {f : Frame} (h : f.Passes) :
    f.verdict = .frame f.kind (zeroPadded f.payload f.fits) f.payload.length f.fits :=
  if_pos h

/-- Any other one comes out as a bad checksum. -/
theorem verdict_of_not_passes {f : Frame} (h : ¬ f.Passes) : f.verdict = .badCrc f.kind :=
  if_neg h

/-- The parser on the bytes of a frame: the verdict one byte early, then the checksum. -/
theorem feeds_bytes {f : Frame} (h : f.Apart) :
    feeds settle [] f.bytes =
      ([], List.replicate (f.payload.length + 2) none ++ [some f.verdict] ++ [some .garbage]) := by
  have hn := toNat_lengthByte f.fits
  have hfront : feeds settle [] (sync :: UInt8.ofNat f.payload.length :: f.kind :: f.payload) =
      ([], List.replicate (f.payload.length + 2) none ++ [some f.verdict]) :=
    feeds_frame (by rw [hn]; exact f.fits) hn.symm
  have hcrc : settle ([] ++ [f.crc]) = some .garbage := if_neg h
  rw [bytes_eq, feeds_append, hfront]
  simp only [feeds, feed_some (show settle ([] ++ [crc8 (covered f.kind f.payload)]) =
    some .garbage from hcrc)]

/-- **A frame by itself**, whatever its checksum is: behind the verdict there is nothing, or
garbage for the checksum. -/
theorem run_alone (f : Frame) :
    ∃ p last, FrameParser.new.run f.bytes =
        some (p, List.replicate (f.payload.length + 2) none ++ [some f.verdict] ++ [last]) ∧
      (last = none ∨ last = some .garbage) := by
  obtain ⟨p, hrun, -, -⟩ := FrameParser.push_simulates.run f.bytes FrameParser.ready_new
  have hn := toNat_lengthByte f.fits
  have hfront : feeds settle [] (sync :: UInt8.ofNat f.payload.length :: f.kind :: f.payload) =
      ([], List.replicate (f.payload.length + 2) none ++ [some f.verdict]) :=
    feeds_frame (by rw [hn]; exact f.fits) hn.symm
  have hpending : FrameParser.new.pending = [] := rfl
  rw [hpending, bytes_eq, feeds_append, hfront, ← bytes_eq] at hrun
  refine ⟨p, (feed settle [] f.crc).2, hrun, ?_⟩
  by_cases hb : f.crc = sync
  · rw [hb]
    exact .inl rfl
  · rw [feed_some (show settle ([] ++ [f.crc]) = some .garbage from if_neg hb)]
    exact .inr rfl

/-- What a frame is reported as: the verdict, and garbage for the checksum. -/
def reports (f : Frame) : List Decoded :=
  [f.verdict, .garbage]

/-- **A stream of encoded frames**: every frame is reported by itself, and the parser is
empty behind it. -/
theorem feeds_frames {fs : List Frame} (h : ∀ f ∈ fs, f.Apart) :
    (feeds settle [] (fs.flatMap bytes)).1 = [] ∧
      (feeds settle [] (fs.flatMap bytes)).2.reduceOption = fs.flatMap reports := by
  induction fs with
  | nil => exact ⟨rfl, rfl⟩
  | cons f fs ih =>
      obtain ⟨hf, hfs⟩ := List.forall_mem_cons.mp h
      obtain ⟨hpend, houts⟩ := ih hfs
      have hnone : (List.replicate (f.payload.length + 2) (none : Option Decoded)).reduceOption =
          [] := List.reduceOption_replicate_none
      rw [List.flatMap_cons, List.flatMap_cons, feeds_append, feeds_bytes hf]
      refine ⟨hpend, ?_⟩
      rw [List.reduceOption_append, List.reduceOption_append, List.reduceOption_append, hnone,
        houts]
      rfl

/-- The same of the parser itself: it never panics on such a stream. -/
theorem run_frames {fs : List Frame} (h : ∀ f ∈ fs, f.Apart) :
    ∃ p outs, FrameParser.new.run (fs.flatMap bytes) = some (p, outs) ∧ p.len = 0 ∧
      outs.reduceOption = fs.flatMap reports := by
  obtain ⟨hpend, houts⟩ := feeds_frames h
  obtain ⟨p, hrun, hp, hready⟩ :=
    FrameParser.push_simulates.run (fs.flatMap bytes) FrameParser.ready_new
  exact ⟨p, _, hrun, by rw [hready.len_eq, hp]; exact congrArg List.length hpend, houts⟩

end Frame

end FaultForge
