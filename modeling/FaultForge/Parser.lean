import FaultForge.Lib.Transducer
import FaultForge.Wire

/-!
# The Streaming Parser

`FrameParser` is the shared crate's byte-wise frame parser: a buffer of `maxFrame` bytes
of which the first `len` are pending. `push` stores a byte and runs `extract` once.

Every index and range of the source is checked: `push` is `none` when the source would
panic. The loop of `extract` is modelled by its body, since every path through the body
returns.

The abstract side is the segmenter (`FaultForge.Lib.Transducer`) of one function on
pending bytes, `settle`. The invariant `Aligned` holds of the buffers that the parser can
reach, and on them `push` is the segmenter's step (`push_simulates`): the parser never
panics, never runs out of room, and drops its whole buffer with every outcome. In
particular the branch that finds a sync byte behind junk is never taken.

## What the parser checks

`settle` waits for `3 + len` bytes and takes the last of them as the checksum of all but
the first. A frame has `4 + len` bytes, so the byte compared with the checksum is the
last byte the checksum covers. `FaultForge.Framing` draws the consequences.

## Main results

* `push_simulates`: on aligned buffers the parser is the segmenter of `settle`.
* `parser_conserves_bytes`: over every stream no byte is lost or counted twice, and no
  index is out of range.
-/

namespace FaultForge

open FixedArray Transducer

/-- What the parser reports. -/
inductive Decoded where
  /-- A frame passed and its CRC verified. -/
  | frame (kind : UInt8) (payload : Bytes maxPayload) (len : ℕ) (fits : len ≤ maxPayload)
  /-- Enough bytes for a frame arrived but the CRC did not match. -/
  | badCrc (kind : UInt8)
  /-- A run of bytes that were skipped while resynchronising. -/
  | garbage
deriving DecidableEq

/-- The parser's buffer and its fill level. -/
structure FrameParser where
  buf : Bytes maxFrame
  len : ℕ
deriving DecidableEq

namespace FrameParser

/-- A parser with an empty buffer. -/
def new : FrameParser := ⟨List.Vector.replicate maxFrame 0, 0⟩

/-- The bytes that wait in the buffer, `buf[..len]`. -/
def pending (p : FrameParser) : List UInt8 :=
  p.buf.toList.take p.len

/-- The part of `extract` that starts with the sync byte at the front of the buffer. -/
def extractFrame (p : FrameParser) : Option (FrameParser × Option Decoded) :=
  if p.len < 2 then some (p, none) -- need len byte
  else
    p.buf.toList[1]?.bind fun lenByte =>
    let plen := lenByte.toNat
    -- guard against absurd lengths (also resyncs on corrupted len bytes)
    if h : maxPayload < plen then some ({ p with len := 0 }, some .garbage)
    else
      let need := 3 + plen
      if p.len < need then some (p, none) -- need more bytes
      else
        p.buf.toList[2]?.bind fun kind =>
        (slice p.buf.toList 3 (3 + plen)).bind fun payload =>
        (writeFront (List.Vector.replicate maxPayload 0) payload).bind fun full =>
        (slice p.buf.toList 1 (3 + plen)).bind fun checked =>
        p.buf.toList[need - 1]?.bind fun got =>
        -- consume exactly the frame
        (copyWithin p.buf need p.len).bind fun buf =>
        let p' : FrameParser := ⟨buf, p.len - need⟩
        if got ≠ crc8 checked then some (p', some (.badCrc kind))
        else some (p', some (.frame kind full plen (Nat.le_of_not_lt h)))

/-- Take the first outcome, if any, out of the buffer. -/
def extract (p : FrameParser) : Option (FrameParser × Option Decoded) :=
  (slice p.buf.toList 0 p.len).bind fun window =>
  match window.findIdx? (· == sync) with
  | none =>
      if 0 < p.len then some ({ p with len := 0 }, some .garbage) else some (p, none)
  | some 0 => p.extractFrame
  | some (i + 1) =>
      -- bytes before the sync are junk
      (copyWithin p.buf (i + 1) p.len).bind fun buf =>
      some (⟨buf, p.len - (i + 1)⟩, some .garbage)

/-- Feed one byte; at most one outcome per call. -/
def push (p : FrameParser) (b : UInt8) : Option (FrameParser × Option Decoded) :=
  if p.len < maxFrame then
    (store p.buf p.len b).bind fun buf => extract ⟨buf, p.len + 1⟩
  else p.extract

/-- Push a stream of bytes and collect the outcome of every push. -/
def run (p : FrameParser) (bs : List UInt8) : Option (FrameParser × List (Option Decoded)) :=
  Transducer.run push p bs

/-- Push a stream of bytes and list the outcomes with the bytes each one consumed. -/
def trace (p : FrameParser) (bs : List UInt8) :
    Option (FrameParser × List (List UInt8 × Decoded)) :=
  Transducer.trace push pending p bs

end FrameParser

/-! ### The abstract parser -/

/-- The payload array of an accepted frame: the payload bytes, then zeros. -/
def zeroPadded (payload : List UInt8) (h : payload.length ≤ maxPayload) : Bytes maxPayload :=
  padded maxPayload 0 payload h

/-- The outcome of `len`, kind and payload once they are complete: the last byte of kind
and payload is compared with the checksum of all of them. -/
def verdict (n kind : UInt8) (payload : List UInt8) (h : payload.length ≤ maxPayload) : Decoded :=
  if (kind :: payload).getLast (List.cons_ne_nil _ _) = crc8 (n :: kind :: payload) then
    .frame kind (zeroPadded payload h) payload.length h
  else .badCrc kind

/-- Whether pending bytes are complete, and what they are reported as. -/
def settle : List UInt8 → Option Decoded
  | [] => none
  | [x] => if x = sync then none else some .garbage
  | [x, n] =>
      if x ≠ sync ∨ maxPayload < n.toNat then some .garbage else none
  | x :: n :: kind :: payload =>
      if x ≠ sync ∨ maxPayload < n.toNat then some .garbage
      else if h : payload.length = n.toNat ∧ payload.length ≤ maxPayload then
        some (verdict n kind payload h.2)
      else none

/-- The lists of bytes that can be pending: nothing, or the beginning of a frame, from its
sync byte on, that still lacks a byte. -/
inductive Aligned : List UInt8 → Prop
  | nil : Aligned []
  | sync : Aligned [sync]
  | frame (n : UInt8) (rest : List UInt8) : n.toNat ≤ maxPayload → rest.length ≤ n.toNat →
      Aligned (FaultForge.sync :: n :: rest)

/-- A pending list never fills the buffer, so `push` always finds room. -/
theorem Aligned.length_lt {q : List UInt8} (h : Aligned q) : q.length < maxFrame := by
  cases h with
  | nil => decide
  | sync => decide
  | frame n rest hn hrest =>
      simp only [List.length_cons, maxFrame]
      omega

/-- The invariant of the parser: the pending bytes are aligned, and the fill level counts
them. -/
structure FrameParser.Ready (p : FrameParser) : Prop where
  aligned : Aligned p.pending
  len_eq : p.len = p.pending.length

/-- A new parser is ready. -/
theorem FrameParser.ready_new : FrameParser.new.Ready :=
  ⟨Aligned.nil, rfl⟩

/-! ### The parser is the segmenter of `settle` -/

/-- All bytes of a payload settle the frame, before its checksum has arrived. -/
theorem settle_frame {n kind : UInt8} {payload : List UInt8} (hn : n.toNat ≤ maxPayload)
    (hlen : payload.length = n.toNat) :
    settle (sync :: n :: kind :: payload) =
      some (verdict n kind payload (hlen.trans_le hn)) := by
  simp only [settle]
  rw [if_neg (by simpa using hn), dif_pos ⟨hlen, hlen.trans_le hn⟩]

/-- A payload that is not complete settles nothing. -/
theorem settle_incomplete {n kind : UInt8} {payload : List UInt8} (hn : n.toNat ≤ maxPayload)
    (hlen : payload.length < n.toNat) :
    settle (sync :: n :: kind :: payload) = none := by
  simp only [settle]
  rw [if_neg (by simpa using hn), dif_neg (fun h => by omega)]

/-- What is left unsettled is aligned again. -/
theorem Aligned.append {q : List UInt8} {b : UInt8} (hq : Aligned q)
    (h : settle (q ++ [b]) = none) : Aligned (q ++ [b]) := by
  cases hq with
  | nil =>
      by_cases hb : b = FaultForge.sync
      · subst hb
        exact Aligned.sync
      · simp [settle, hb] at h
  | sync =>
      by_cases hn : maxPayload < b.toNat
      · simp [settle, hn] at h
      · exact Aligned.frame b [] (Nat.le_of_not_lt hn) (Nat.zero_le _)
  | frame n rest hn hrest =>
      refine Aligned.frame n (rest ++ [b]) hn ?_
      rcases Nat.lt_or_eq_of_le hrest with hlt | heq
      · rw [List.length_append]
        exact hlt
      · obtain ⟨kind, payload, hkp⟩ : ∃ kind payload, rest ++ [b] = kind :: payload :=
          List.exists_cons_of_ne_nil (by simp)
        have hlen : payload.length = n.toNat := by
          have := congrArg List.length hkp
          simp at this
          omega
        rw [List.cons_append, List.cons_append, hkp, settle_frame hn hlen] at h
        exact absurd h (by simp)

namespace FrameParser

/-- Below `len` the buffer holds the pending bytes. -/
theorem getElem?_buf {p : FrameParser} {i : ℕ} (hi : i < p.len) :
    p.buf.toList[i]? = p.pending[i]? :=
  getElem?_window hi

/-- A slice of the buffer below `len` is one of the pending bytes, and does not panic. -/
theorem slice_buf {p : FrameParser} {i j : ℕ} (hij : i ≤ j) (hj : j ≤ p.len)
    (hlen : p.len ≤ maxFrame) :
    slice p.buf.toList i j = some ((p.pending.take j).drop i) :=
  slice_window hij hj (by rw [List.Vector.toList_length]; omega)

/-- A complete frame at the front of the buffer is consumed with its verdict. -/
theorem extractFrame_complete {p : FrameParser} {n kind : UInt8} {payload : List UInt8}
    (hp : p.pending = sync :: n :: kind :: payload) (hlen : p.len = payload.length + 3)
    (hn : payload.length = n.toNat) (hmax : payload.length ≤ maxPayload) :
    ∃ buf, p.extractFrame = some (⟨buf, 0⟩, some (verdict n kind payload hmax)) := by
  have hfit : p.len ≤ maxFrame := by simp only [maxFrame]; omega
  obtain ⟨buf, hbuf, -⟩ := copyWithin_window (v := p.buf) (le_refl p.len) hfit
  have h1 : p.buf.toList[1]? = some n := by rw [getElem?_buf (by omega), hp]; rfl
  have h2 : p.buf.toList[2]? = some kind := by rw [getElem?_buf (by omega), hp]; rfl
  have hpay : slice p.buf.toList 3 (3 + n.toNat) = some payload := by
    rw [slice_buf (by omega) (by omega) hfit, hp, ← hn]
    simp [Nat.add_comm 3]
  have hchk : slice p.buf.toList 1 (3 + n.toNat) = some (n :: kind :: payload) := by
    rw [slice_buf (by omega) (by omega) hfit, hp, ← hn]
    simp [Nat.add_comm 3]
  have hgot : p.buf.toList[3 + n.toNat - 1]? =
      some ((kind :: payload).getLast (List.cons_ne_nil _ _)) := by
    rw [getElem?_buf (by omega), hp, ← hn, List.getLast_eq_getElem]
    simp [Nat.add_comm 3]
  have hneed : 3 + n.toNat = p.len := by omega
  refine ⟨buf, ?_⟩
  rw [extractFrame, if_neg (by omega)]
  simp only [h1, h2, hpay, hchk, hgot, Option.bind_some]
  rw [dif_neg (by omega), if_neg (by omega), writeFront_replicate 0 payload hmax, hneed, hbuf]
  simp only [Option.bind_some, Nat.sub_self, verdict, zeroPadded, ne_eq, ite_not, hn]
  split <;> rfl

/-- A buffer that is too short for the frame it announces is left as it is. -/
theorem extractFrame_incomplete {p : FrameParser} {n : UInt8} {rest : List UInt8}
    (hp : p.pending = sync :: n :: rest) (hlen : p.len = rest.length + 2)
    (hn : n.toNat ≤ maxPayload) (hrest : rest.length ≤ n.toNat) :
    p.extractFrame = some (p, none) := by
  have h1 : p.buf.toList[1]? = some n := by rw [getElem?_buf (by omega), hp]; rfl
  rw [extractFrame, if_neg (by omega), h1]
  simp only [Option.bind_some]
  rw [dif_neg (by omega), if_pos (by omega)]

/-- An absurd length byte drops the buffer. -/
theorem extractFrame_absurd {p : FrameParser} {n : UInt8}
    (hp : p.pending = [sync, n]) (hlen : p.len = 2) (hn : maxPayload < n.toNat) :
    p.extractFrame = some ({ p with len := 0 }, some .garbage) := by
  have h1 : p.buf.toList[1]? = some n := by rw [getElem?_buf (by omega), hp]; rfl
  rw [extractFrame, if_neg (by omega), h1]
  simp only [Option.bind_some]
  rw [dif_pos hn]

/-- A buffer that starts with the sync byte goes to `extractFrame`. -/
theorem extract_of_sync {p : FrameParser} {rest : List UInt8} (hp : p.pending = sync :: rest)
    (hlen : p.len ≤ maxFrame) : p.extract = p.extractFrame := by
  rw [extract, slice_buf (Nat.zero_le _) (le_refl _) hlen]
  have hw : (p.pending.take p.len).drop 0 = sync :: rest := by
    rw [List.drop_zero, ← hp, pending, List.take_take, min_self]
  simp only [hw, Option.bind_some, List.findIdx?_cons, beq_self_eq_true, if_true]

/-- A lone byte that is not the sync byte is garbage. -/
theorem extract_of_junk {p : FrameParser} {b : UInt8} (hp : p.pending = [b])
    (hlen : p.len = 1) (hb : b ≠ sync) :
    p.extract = some ({ p with len := 0 }, some .garbage) := by
  rw [extract, slice_buf (Nat.zero_le _) (le_refl _) (by rw [hlen]; decide)]
  have hw : (p.pending.take p.len).drop 0 = [b] := by rw [hp, hlen]; rfl
  simp only [hw, Option.bind_some]
  simp [hb, hlen]

/-- An outcome that empties the buffer leaves the parser ready. -/
theorem ready_of_empty (buf : Bytes maxFrame) : Ready ⟨buf, 0⟩ :=
  ⟨Aligned.nil, rfl⟩

/-- The abstract step, as a relation between buffers: what `extract` does to an aligned
list that has just been extended by a byte. -/
theorem extract_simulates {p : FrameParser} {q : List UInt8} {b : UInt8} (hq : Aligned q)
    (hp : p.pending = q ++ [b]) (hlen : p.len = q.length + 1) :
    ∃ p', p.extract = some (p', (feed settle q b).2) ∧ p'.pending = (feed settle q b).1 ∧
      p'.Ready := by
  have hfit : p.len ≤ maxFrame := by have := hq.length_lt; omega
  -- an unsettled list stays in the buffer as it is, a settled one leaves it empty
  have hkeep : p.extract = some (p, none) → settle (q ++ [b]) = none →
      ∃ p', p.extract = some (p', (feed settle q b).2) ∧
        p'.pending = (feed settle q b).1 ∧ p'.Ready := by
    intro hext hnone
    rw [feed_none hnone]
    exact ⟨p, hext, hp, by rw [hp]; exact hq.append hnone, by rw [hp, hlen]; simp⟩
  have hdrop : ∀ buf w, p.extract = some (⟨buf, 0⟩, some w) → settle (q ++ [b]) = some w →
      ∃ p', p.extract = some (p', (feed settle q b).2) ∧
        p'.pending = (feed settle q b).1 ∧ p'.Ready := by
    intro buf w hext hsome
    rw [feed_some hsome]
    exact ⟨⟨buf, 0⟩, hext, rfl, ready_of_empty buf⟩
  cases hq with
  | nil =>
      by_cases hb : b = FaultForge.sync
      · subst hb
        refine hkeep ?_ (by simp [settle])
        rw [extract_of_sync hp hfit, extractFrame, if_pos (by simp [hlen])]
      · exact hdrop p.buf _ (extract_of_junk hp hlen hb) (by simp [settle, hb])
  | sync =>
      by_cases hb : maxPayload < b.toNat
      · refine hdrop p.buf .garbage ?_ (by simp [settle, hb])
        rw [extract_of_sync hp hfit, extractFrame_absurd hp hlen hb]
      · refine hkeep ?_ (by simp [settle, Nat.le_of_not_lt hb])
        rw [extract_of_sync hp hfit]
        exact extractFrame_incomplete hp hlen (Nat.le_of_not_lt hb) (Nat.zero_le _)
  | frame n rest hn hrest =>
      obtain ⟨kind, payload, hkp⟩ : ∃ kind payload, rest ++ [b] = kind :: payload :=
        List.exists_cons_of_ne_nil (by simp)
      have hrl : rest.length = payload.length := by
        have := congrArg List.length hkp
        simpa using this
      rw [List.cons_append, List.cons_append, hkp] at hp hkeep hdrop
      have hlen' : p.len = payload.length + 3 := by simp [hlen, hrl]
      rcases Nat.lt_or_eq_of_le hrest with hlt | heq
      · refine hkeep ?_ (settle_incomplete hn (by omega))
        rw [extract_of_sync hp hfit]
        exact extractFrame_incomplete hp (by simp [hlen']) hn (by simp; omega)
      · obtain ⟨buf, hbuf⟩ := extractFrame_complete hp hlen' (by omega) (by omega)
        refine hdrop buf _ ?_ (settle_frame hn (by omega))
        rw [extract_of_sync hp hfit, hbuf]

/-- **The parser is a segmenter**: on aligned buffers `push` never panics and does to the
pending bytes what the segmenter of `settle` does. -/
theorem push_simulates : Simulates push pending settle Ready where
  step p b hp := by
    have hlen : p.len < maxFrame := by
      rw [hp.len_eq]
      exact hp.aligned.length_lt
    obtain ⟨buf, hstore, hwin⟩ := store_window (v := p.buf) b hlen
    have hpush : p.push b = extract ⟨buf, p.len + 1⟩ := by
      rw [push, if_pos hlen, hstore, Option.bind_some]
    rw [hpush]
    exact extract_simulates hp.aligned hwin (by rw [hp.len_eq])

/-- A ready parser whose pending list is empty has an empty buffer. -/
theorem Ready.len_eq_zero_iff {p : FrameParser} (hp : p.Ready) : p.len = 0 ↔ p.pending = [] := by
  rw [hp.len_eq, List.length_eq_zero_iff]

/-- A ready parser gives an outcome exactly when the push leaves its buffer empty, having
consumed something. -/
theorem Ready.push_isSome_iff {p : FrameParser} (hp : p.Ready) (b : UInt8) :
    ∃ p' o, p.push b = some (p', o) ∧
      (o.isSome = true ↔ p'.len = 0 ∧ consumed pending p b p' ≠ []) := by
  obtain ⟨p', hpush, hpend, hready⟩ := push_simulates.step p b hp
  refine ⟨p', _, hpush, ?_⟩
  rw [feed_isSome_iff, ← hpend, hready.len_eq_zero_iff]
  refine ⟨fun h => ⟨h, ?_⟩, fun h => h.1⟩
  have ho : (feed settle p.pending b).2.isSome = true := feed_isSome_iff.mpr (hpend ▸ h)
  rw [Simulates.consumed_eq hpend ho]
  simp

end FrameParser

/-- A non-empty aligned list starts with the sync byte, and its length byte, once there,
announces a frame that fits and is not complete. -/
theorem Aligned.shape {q : List UInt8} (h : Aligned q) :
    (q = [] ∨ q.head? = some FaultForge.sync) ∧
      ∀ n, q[1]? = some n → n.toNat ≤ maxPayload ∧ q.length < 3 + n.toNat := by
  cases h with
  | nil => simp
  | sync => simp
  | frame n rest hn hrest =>
      refine ⟨Or.inr rfl, fun m hm => ?_⟩
      obtain rfl : n = m := by simpa using hm
      refine ⟨hn, ?_⟩
      simp only [List.length_cons]
      omega

/-- A settled run is not empty, and unless it is reported as garbage it starts with the
sync byte. -/
theorem head_of_settle {run : List UInt8} {d : Decoded} (h : settle run = some d) :
    run ≠ [] ∧ (d ≠ .garbage → run.head? = some sync) := by
  have hne : run ≠ [] := by
    rintro rfl
    simp [settle] at h
  refine ⟨hne, fun hd => ?_⟩
  obtain ⟨x, rest, rfl⟩ := List.exists_cons_of_ne_nil hne
  by_contra hx
  have hx' : x ≠ sync := fun hxs => hx (by rw [hxs]; rfl)
  rcases rest with - | ⟨n, - | ⟨kind, payload⟩⟩ <;> simp [settle, hx'] at h <;>
    exact hd h.symm

/-- **The parser neither loses nor double-counts a byte.** After every stream the buffer
has room, holds the beginning of a frame or nothing, and completes the runs consumed by
the outcomes to the stream; a push gives an outcome exactly when it consumes and leaves
the buffer empty. No push panics. -/
theorem parser_conserves_bytes (bs : List UInt8) :
    ∃ p outcomes, FrameParser.new.trace bs = some (p, outcomes) ∧
      p.len < maxFrame ∧
      (p.pending = [] ∨ p.pending.head? = some sync) ∧
      (∀ n, p.pending[1]? = some n → n.toNat ≤ maxPayload ∧ p.len < 3 + n.toNat) ∧
      outcomes.flatMap Prod.fst ++ p.pending = bs ∧
      (∀ r ∈ outcomes, r.1 ≠ [] ∧ (r.2 ≠ .garbage → r.1.head? = some sync)) ∧
      ∀ b, ∃ p' o, p.push b = some (p', o) ∧
        (o.isSome = true ↔ p'.len = 0 ∧ consumed FrameParser.pending p b p' ≠ []) := by
  obtain ⟨p, htrace, hpend, hready⟩ := FrameParser.push_simulates.trace bs FrameParser.ready_new
  have hshape := hready.aligned.shape
  refine ⟨p, _, htrace, ?_, hshape.1, ?_, ?_, ?_, hready.push_isSome_iff⟩
  · rw [hready.len_eq]
    exact hready.aligned.length_lt
  · rw [hready.len_eq]
    exact hshape.2
  · rw [hpend]
    exact flatMap_cuts_append [] bs
  · intro r hr
    obtain ⟨-, -, -, -, hr⟩ :=
      settle_of_mem_cuts Aligned.nil (fun _ _ => Aligned.append) Aligned.nil hr
    exact head_of_settle hr

end FaultForge
