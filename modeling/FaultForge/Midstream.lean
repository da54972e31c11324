import FaultForge.Flawless
import FaultForge.Lib.MarkedBlocks

/-!
# Joining in the Middle

A host that is attached to a running injector sees the end of a frame first, or noise. It takes
its parser a stretch as long as the buffer to get out of what it has taken for a frame, and the
frames in that stretch are lost. From the next frame on it reports the frames as a parser does
that has seen nothing else, provided that no frame has a sync byte inside (`Quiet`).

The general argument is that of marked blocks (`FaultForge.Lib.MarkedBlocks`).

## Main results

* `resumes_midstream`: which frames a host reports that joins in the middle.
-/

namespace FaultForge

open Transducer

namespace Frame

/-- No byte of the frame behind its first one is a sync byte. -/
def Quiet (f : Frame) : Prop :=
  sync ∉ f.bytes.tail

instance (f : Frame) : Decidable f.Quiet :=
  inferInstanceAs (Decidable (_ ∉ _))

/-- The only sync byte of a quiet frame is its first byte. -/
theorem Quiet.marked {f : Frame} (h : f.Quiet) : Marked sync f.bytes := by
  refine ⟨f.bytes.tail, ?_, h⟩
  rw [bytes_eq]
  rfl

/-- In particular its checksum is none. -/
theorem Quiet.apart {f : Frame} (h : f.Quiet) : f.Apart := by
  rw [Quiet, bytes_eq] at h
  exact fun hcrc => h (List.mem_append_right _ (List.mem_singleton.mpr hcrc.symm))

/-- Many frames have four times as many bytes, at least. -/
theorem four_mul_le_length (fs : List Frame) : 4 * fs.length ≤ (fs.flatMap bytes).length := by
  induction fs with
  | nil => exact Nat.zero_le _
  | cons f fs ih =>
      rw [List.flatMap_cons, List.length_append, List.length_cons, bytes_eq]
      simp only [List.length_append, List.length_cons, List.length_nil]
      omega

end Frame

/-- **A host that joins in the middle.** Let any bytes come first, and then undamaged frames
without sync bytes inside, all cut into chunks in any way. From one of these frames on, the
parser task delivers every frame as on a flawless link. It is one of the first six, and the
frames before it, without the last of them, are shorter in total than the buffer. -/
theorem resumes_midstream (u : List UInt8) {fs : List Frame} (hquiet : ∀ f ∈ fs, f.Quiet)
    {chunks : List (List UInt8)} (hcut : chunks.flatten = u ++ fs.flatMap Frame.bytes) :
    ∃ p early k, parseStream .new chunks =
        some (p, early ++ (fs.drop k).flatMap Frame.images) ∧
      k ≤ 5 ∧ ((fs.take (k - 1)).flatMap Frame.bytes).length < maxFrame := by
  have hmarked : ∀ b ∈ fs.map Frame.bytes, Marked sync b := by
    intro b hb
    obtain ⟨f, hf, rfl⟩ := List.mem_map.mp hb
    exact (hquiet f hf).marked
  have haligned : Aligned (feeds settle [] u).1 :=
    feeds_invariant Aligned.nil (fun _ _ => Aligned.append) Aligned.nil
  have hskip : ∀ b, b ≠ sync → (settle [b]).isSome = true := fun b hb => by
    simp [settle, hb]
  obtain ⟨k, hle, early, hlost, houts⟩ := resumes_on_blocks Aligned.nil
    (fun _ _ => Aligned.append) (fun _ h => h.length_lt) hskip hmarked haligned
  have hbytes : ∀ fs : List Frame, (fs.map Frame.bytes).flatten = fs.flatMap Frame.bytes :=
    fun _ => rfl
  rw [← List.map_take, hbytes] at hlost
  rw [← List.map_drop, hbytes, hbytes] at houts
  have hbehind : ∀ f ∈ fs.drop k, f.Apart := fun f hf =>
    (hquiet f (List.mem_of_mem_drop hf)).apart
  obtain ⟨-, hreports⟩ := Frame.feeds_frames hbehind
  obtain ⟨p, hrun, -, -⟩ :=
    FrameParser.push_simulates.run (u ++ fs.flatMap Frame.bytes) FrameParser.ready_new
  have hpending : FrameParser.new.pending = [] := rfl
  refine ⟨p, Pipe.images ((feeds settle [] u).2 ++ early), k, ?_, ?_, hlost⟩
  · rw [Pipe.parseStream_eq, hcut, FrameParser.run, hrun, Option.map_some, hpending, feeds_append,
      houts, ← List.append_assoc, Pipe.images_append]
    simp only [Pipe.images, hreports, List.map_flatMap]
    rfl
  · have hfour := Frame.four_mul_le_length (fs.take (k - 1))
    rw [List.length_take] at hfour
    rw [List.length_map] at hle
    have hbuffer : maxFrame = 20 := rfl
    omega

/-- Seven PONGs behind the beginning of a frame of twelve bytes. -/
theorem joins_before_pongs :
    let pongs := List.replicate 7 (⟨kPong, [], Nat.zero_le _⟩ : Frame)
    ∃ p early k, parseStream .new [[0x7E, 12, 1], pongs.flatMap Frame.bytes] =
        some (p, early ++ (pongs.drop k).flatMap Frame.images) ∧
      k ≤ 5 ∧ ((pongs.take (k - 1)).flatMap Frame.bytes).length < maxFrame :=
  resumes_midstream [0x7E, 12, 1] (by decide +kernel) (by simp)

end FaultForge
