import FaultForge.Parser

/-!
# Framing: the Parser against the Encoder

The parser waits for one byte less than a frame has and compares the last byte it has
seen with the checksum (`FaultForge.Parser`). This module settles what that does to the
two directions of the wire protocol.

* **Decoding what was encoded.** The outcome for a frame falls on the byte before its
  checksum, so no stream that carries a frame decodes as it was encoded
  (`roundTrips_iff`).
* **Encoding what was decoded.** A frame is accepted exactly when the pending bytes with
  the new one are *self-checked*: sync, a length, kind and payload, the last byte of
  which happens to be the checksum of all of them (`push_eq_frame_iff`). Such bytes are
  never the end of an encoded frame, so the parser accepts well-formed frames only on
  the streams on which it accepts none (`acceptsWellFormed_iff`).

## Main results

* `roundTrips_iff`: a stream of encoded frames decodes to itself iff it is empty.
* `acceptsWellFormed_iff`: what the parser accepts on a stream is well formed iff no push
  completes self-checked bytes.
-/

namespace FaultForge

open FixedArray Transducer

/-! ### Decoding what was encoded -/

/-- A frame to be sent: its kind and a payload that fits. -/
structure Frame where
  kind : UInt8
  payload : List UInt8
  fits : payload.length ≤ maxPayload

namespace Frame

/-- The bytes that are sent for the frame. -/
def bytes (f : Frame) : List UInt8 :=
  (encode f.kind f.payload f.fits).toVec

/-- The outcomes a receiver of these bytes should give: the frame itself on the last
byte, and nothing on the bytes before it. -/
def outcomes (f : Frame) : List (Option Decoded) :=
  List.replicate (f.payload.length + 3) none ++
    [some (.frame f.kind (zeroPadded f.payload f.fits) f.payload.length f.fits)]

end Frame

/-- Decoding undoes encoding on a stream of frames: pushed into a fresh parser, its bytes
give the outcomes of the frames in order and leave the parser empty. -/
def RoundTrips (frames : List Frame) : Prop :=
  ∃ p, FrameParser.new.run (frames.flatMap Frame.bytes) =
    some (p, frames.flatMap Frame.outcomes) ∧ p.len = 0

/-- The bytes of a frame before its checksum: no proper part of them is settled. -/
theorem settle_eq_none_of_append {n kind : UInt8} {payload pre post : List UInt8}
    (hn : n.toNat ≤ maxPayload) (hlen : payload.length = n.toNat)
    (h : sync :: n :: kind :: payload = pre ++ post) (hpost : post ≠ []) :
    settle pre = none := by
  rcases pre with - | ⟨x, - | ⟨m, - | ⟨k, rest⟩⟩⟩
  · rfl
  · obtain ⟨rfl, -⟩ : sync = x ∧ _ := List.cons.inj h
    simp [settle]
  · obtain ⟨rfl, rfl, -⟩ : sync = x ∧ n = m ∧ _ := by simpa using h
    simp [settle, hn]
  · obtain ⟨rfl, rfl, rfl, hrest⟩ : sync = x ∧ n = m ∧ kind = k ∧ payload = rest ++ post := by
      simpa using h
    refine settle_incomplete hn ?_
    have hpos := List.length_pos_iff.mpr hpost
    have hsplit := congrArg List.length hrest
    rw [List.length_append] at hsplit
    omega

/-- The parser settles a frame on the byte before its checksum. -/
theorem feeds_frame {n kind : UInt8} {payload : List UInt8} (hn : n.toNat ≤ maxPayload)
    (hlen : payload.length = n.toNat) :
    feeds settle [] (sync :: n :: kind :: payload) =
      ([], List.replicate (payload.length + 2) none ++
        [some (verdict n kind payload (hlen.trans_le hn))]) := by
  obtain ⟨pre, last, hpre⟩ : ∃ pre last, sync :: n :: kind :: payload = pre ++ [last] :=
    ⟨_, _, (List.dropLast_append_getLast (List.cons_ne_nil _ _)).symm⟩
  have hlast : settle (pre ++ [last]) = some (verdict n kind payload (hlen.trans_le hn)) := by
    rw [← hpre]
    exact settle_frame hn hlen
  have hfeed := feed_some hlast
  have hprelen : payload.length + 2 = pre.length := by
    have := congrArg List.length hpre
    simpa using this
  have hpend : feeds settle [] pre = (pre, List.replicate pre.length none) := by
    refine feeds_eq_pending fun bs cs hbs _ => ?_
    have hsplit : sync :: n :: kind :: payload = ([] ++ bs) ++ (cs ++ [last]) := by
      rw [hpre, hbs, List.nil_append, List.append_assoc]
    exact settle_eq_none_of_append hn hlen hsplit (by simp)
  rw [hpre, feeds_append, hpend, hprelen]
  simp only [feeds, hfeed]

/-- The length byte of a payload that fits. -/
theorem toNat_lengthByte {payload : List UInt8} (h : payload.length ≤ maxPayload) :
    (UInt8.ofNat payload.length).toNat = payload.length := by
  have : payload.length ≤ 16 := h
  rw [UInt8.toNat_ofNat']
  omega

/-- A frame on the wire: the covered bytes with a sync byte before and the checksum behind
them. -/
theorem Frame.bytes_eq (f : Frame) :
    f.bytes = (sync :: UInt8.ofNat f.payload.length :: f.kind :: f.payload) ++
      [crc8 (covered f.kind f.payload)] := by
  rw [Frame.bytes, toVec_encode]
  rfl

/-- A stream with a frame in it does not round-trip: its first frame gives an outcome one
byte too early. -/
theorem not_roundTrips_cons (f : Frame) (frames : List Frame) : ¬ RoundTrips (f :: frames) := by
  rintro ⟨p, hrun, -⟩
  have hn := toNat_lengthByte f.fits
  obtain ⟨p', hrun', -⟩ := FrameParser.push_simulates.run
    ((f :: frames).flatMap Frame.bytes) FrameParser.ready_new
  rw [FrameParser.run, hrun'] at hrun
  -- the outcomes of the first `payload.length + 3` bytes, as the parser gives them
  have hout := congrArg (fun r => r.map Prod.snd) hrun
  simp only [Option.map_some, Option.some.injEq] at hout
  rw [show FrameParser.new.pending = [] from rfl, List.flatMap_cons, List.flatMap_cons,
    Frame.bytes_eq, List.append_assoc, feeds_append,
    feeds_frame (by rw [hn]; exact f.fits) hn.symm, Frame.outcomes] at hout
  have hidx := congrArg (fun os => os[f.payload.length + 2]?) hout
  simp [List.getElem?_append] at hidx

/-- **Decoding undoes encoding on the empty stream only.** -/
theorem roundTrips_iff (frames : List Frame) : RoundTrips frames ↔ frames = [] := by
  constructor
  · intro h
    cases frames with
    | nil => rfl
    | cons f frames => exact absurd h (not_roundTrips_cons f frames)
  · rintro rfl
    exact ⟨FrameParser.new, rfl, rfl⟩

/-- The PING frame of the handshake: the parser reports a bad checksum on its third byte
and garbage on its fourth. -/
theorem ping_not_roundTrips : ¬ RoundTrips [⟨kPing, [], Nat.zero_le _⟩] := by
  rintro ⟨p, hrun, -⟩
  have hout : (FrameParser.new.run [0x7E, 0x00, 0x02, 0x0E]).map Prod.snd =
      some [none, none, some (.badCrc 0x02), some .garbage] := by decide +kernel
  have hbytes : [(⟨kPing, [], Nat.zero_le _⟩ : Frame)].flatMap Frame.bytes =
      [0x7E, 0x00, 0x02, 0x0E] := by decide +kernel
  rw [hbytes] at hrun
  rw [hrun, Option.map_some, Option.some.injEq] at hout
  have hne : [(⟨kPing, [], Nat.zero_le _⟩ : Frame)].flatMap Frame.outcomes ≠
      [none, none, some (.badCrc 0x02), some .garbage] := by decide +kernel
  exact hne hout

/-! ### Encoding what was decoded -/

/-- Bytes that the parser takes for a frame: sync, a length, kind and that many payload
bytes, the last byte of which is the checksum of all bytes after sync, itself included. -/
def SelfChecked : List UInt8 → Prop
  | x :: n :: kind :: payload =>
      x = sync ∧ n.toNat ≤ maxPayload ∧ payload.length = n.toNat ∧
        (kind :: payload).getLast (List.cons_ne_nil _ _) = crc8 (n :: kind :: payload)
  | _ => False

instance (q : List UInt8) : Decidable (SelfChecked q) := by
  unfold SelfChecked
  split <;> infer_instance

/-- What `settle` accepts as a frame. -/
theorem settle_eq_frame {q : List UInt8} {kind : UInt8} {full : Bytes maxPayload} {len : ℕ}
    {fits : len ≤ maxPayload} (h : settle q = some (.frame kind full len fits)) :
    ∃ n payload, q = sync :: n :: kind :: payload ∧ n.toNat ≤ maxPayload ∧
      payload.length = n.toNat ∧ full.toList.take len = payload ∧ SelfChecked q := by
  rcases q with - | ⟨x, - | ⟨n, - | ⟨k, payload⟩⟩⟩
  · simp [settle] at h
  · simp [settle] at h
  · simp [settle] at h
  · simp only [settle] at h
    split at h
    · simp at h
    · next hx =>
      simp only [not_or, not_not, Nat.not_lt] at hx
      split at h
      · next hlen =>
        simp only [Option.some.injEq, verdict] at h
        split at h
        · next hcrc =>
          obtain ⟨rfl, rfl, rfl⟩ := Decoded.frame.inj h
          exact ⟨n, payload, by rw [hx.1], hx.2, hlen.1, take_padded 0 payload hlen.2,
            hx.1, hx.2, hlen.1, hcrc⟩
        · simp at h
      · simp at h

/-- Self-checked bytes are settled as a frame. -/
theorem settle_of_selfChecked {q : List UInt8} (h : SelfChecked q) :
    ∃ kind full len fits, settle q = some (.frame kind full len fits) := by
  rcases q with - | ⟨x, - | ⟨n, - | ⟨kind, payload⟩⟩⟩
  · exact h.elim
  · exact h.elim
  · exact h.elim
  · obtain ⟨rfl, hn, hlen, hcrc⟩ := h
    rw [settle_frame hn hlen, verdict, if_pos hcrc]
    exact ⟨_, _, _, _, rfl⟩

/-- The bytes of an accepted frame are never the end of an encoded frame: both start with
sync, one byte apart, so the length byte of the encoded one would be sync. -/
theorem not_layout_suffix {n kind : UInt8} {payload s : List UInt8}
    (hn : n.toNat ≤ maxPayload) (hlen : payload.length = n.toNat)
    (hs : sync :: n :: kind :: payload <:+ s) : ¬ layout kind payload <:+ s := by
  intro hlay
  have hsuf : sync :: n :: kind :: payload <:+ layout kind payload := by
    refine List.suffix_of_suffix_length_le hs hlay ?_
    simp
  obtain ⟨pre, hpre⟩ := hsuf
  have hprelen : pre.length = 1 := by
    have := congrArg List.length hpre
    simp at this
    omega
  obtain ⟨x, rfl⟩ := List.length_eq_one_iff.mp hprelen
  have hsync : sync = UInt8.ofNat payload.length := by
    have := congrArg (fun l => l[1]?) hpre
    simpa [layout, covered] using this
  have hlt : payload.length ≤ maxPayload := hlen.trans_le hn
  have hnat := congrArg UInt8.toNat hsync
  rw [toNat_lengthByte hlt] at hnat
  rw [← hnat] at hlt
  exact absurd hlt (by decide)

/-- Everything the parser accepts on a stream is well formed: whenever the push of a byte
reports a frame, the bytes pushed so far end with the encoding of that frame. -/
def AcceptsWellFormed (bs : List UInt8) : Prop :=
  ∀ pre b post p outs p' kind full len fits, bs = pre ++ b :: post →
    FrameParser.new.run pre = some (p, outs) →
    p.push b = some (p', some (.frame kind full len fits)) →
    ∃ h : (full.toList.take len).length ≤ maxPayload,
      (encode kind (full.toList.take len) h).toVec <:+ pre ++ [b]

/-- The parser that has seen `pre`, and the end of `pre` that it holds. -/
theorem FrameParser.run_new (pre : List UInt8) :
    ∃ p outs, FrameParser.new.run pre = some (p, outs) ∧ p.Ready ∧ p.pending <:+ pre := by
  obtain ⟨p, hrun, hpend, hready⟩ := FrameParser.push_simulates.run pre FrameParser.ready_new
  refine ⟨p, _, hrun, hready, ?_⟩
  rw [hpend]
  exact ⟨_, flatMap_cuts_append [] pre⟩

/-- A push reports a frame exactly when it completes self-checked bytes. -/
theorem FrameParser.Ready.push_eq_frame_iff {p : FrameParser} (hp : p.Ready) (b : UInt8) :
    (∃ p' kind full len fits, p.push b = some (p', some (.frame kind full len fits))) ↔
      SelfChecked (p.pending ++ [b]) := by
  obtain ⟨p', hpush, -, -⟩ := FrameParser.push_simulates.step p b hp
  constructor
  · rintro ⟨p'', kind, full, len, fits, h⟩
    rw [hpush] at h
    obtain ⟨-, hsnd⟩ := Prod.mk.inj (Option.some.inj h)
    obtain ⟨-, -, -, -, -, -, hself⟩ := settle_eq_frame (feed_snd_eq_some_iff.mp hsnd)
    exact hself
  · intro hself
    obtain ⟨kind, full, len, fits, hsettle⟩ := settle_of_selfChecked hself
    rw [feed_some hsettle] at hpush
    exact ⟨p', kind, full, len, fits, hpush⟩

/-- A push that reports a frame is not the last byte of that frame's encoding. -/
theorem FrameParser.Ready.not_wellFormed_of_push {p p' : FrameParser} (hp : p.Ready)
    {pre : List UInt8} {b kind : UInt8} {full : Bytes maxPayload} {len : ℕ}
    {fits : len ≤ maxPayload} (hpre : p.pending <:+ pre)
    (h : p.push b = some (p', some (.frame kind full len fits))) :
    ¬ layout kind (full.toList.take len) <:+ pre ++ [b] := by
  obtain ⟨p'', hpush, -, -⟩ := FrameParser.push_simulates.step p b hp
  rw [hpush] at h
  obtain ⟨-, hsnd⟩ := Prod.mk.inj (Option.some.inj h)
  obtain ⟨n, payload, hq, hn, hlen, htake, -⟩ :=
    settle_eq_frame (feed_snd_eq_some_iff.mp hsnd)
  rw [htake]
  refine not_layout_suffix hn hlen (hq ▸ ?_)
  obtain ⟨front, rfl⟩ := hpre
  exact ⟨front, by simp⟩

/-- **The parser accepts well-formed frames only iff it accepts none**: on no push of the
stream do the pending bytes with the new one come out self-checked. -/
theorem acceptsWellFormed_iff (bs : List UInt8) :
    AcceptsWellFormed bs ↔
      ∀ pre b post p outs, bs = pre ++ b :: post →
        FrameParser.new.run pre = some (p, outs) → ¬ SelfChecked (p.pending ++ [b]) := by
  constructor
  · intro hacc pre b post p outs hbs hrun hself
    obtain ⟨p₁, outs₁, hrun₁, hready, hsuf⟩ := FrameParser.run_new pre
    obtain ⟨rfl, -⟩ := Prod.mk.inj (Option.some.inj (hrun₁.symm.trans hrun))
    obtain ⟨p', kind, full, len, fits, hpush⟩ := (hready.push_eq_frame_iff b).mpr hself
    obtain ⟨_, hlay⟩ := hacc pre b post p₁ outs p' kind full len fits hbs hrun hpush
    rw [toVec_encode] at hlay
    exact hready.not_wellFormed_of_push hsuf hpush hlay
  · intro hnot pre b post p outs p' kind full len fits hbs hrun hpush
    obtain ⟨p₁, outs₁, hrun₁, hready, -⟩ := FrameParser.run_new pre
    obtain ⟨rfl, -⟩ := Prod.mk.inj (Option.some.inj (hrun₁.symm.trans hrun))
    exact absurd ((hready.push_eq_frame_iff b).mp ⟨p', kind, full, len, fits, hpush⟩)
      (hnot pre b post p₁ outs hbs hrun)

/-- Three bytes are accepted as an empty frame of kind 0, whose encoding has four. -/
theorem three_bytes_not_acceptsWellFormed : ¬ AcceptsWellFormed [0x7E, 0x00, 0x00] := by
  intro hacc
  have hpush : (FrameParser.new.run [0x7E, 0x00]).bind
        (fun r => (r.1.push 0x00).map Prod.snd) =
      some (some (.frame 0x00 (List.Vector.replicate maxPayload 0) 0 (Nat.zero_le _))) := by
    decide +kernel
  obtain ⟨⟨p, outs⟩, hrun, hpush⟩ := Option.bind_eq_some_iff.mp hpush
  obtain ⟨⟨p', o⟩, hpush, rfl⟩ := Option.map_eq_some_iff.mp hpush
  obtain ⟨_, hlay⟩ := hacc [0x7E, 0x00] 0x00 [] p outs p' _ _ _ _ rfl hrun hpush
  have hlen := hlay.length_le
  rw [toVec_encode, length_layout] at hlen
  simp at hlen

end FaultForge
