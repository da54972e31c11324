import FaultForge.Lib.FixedArray

/-!
# The Wire Protocol

The shared crate of the bench, less its streaming parser (`FaultForge.Parser`): the
frame layout, the checksum, the campaign's random number generator, and the encoders
and decoders of the payloads. Both directions of the link use one layout,

* `[0x7E sync] [len] [kind] [payload (len bytes)] [crc8]`,

where `crc8` covers `len`, `kind` and the payload.

Bytes and words are Lean's fixed-width integers, whose arithmetic wraps as `wrapping_add`
and `wrapping_mul` do. A byte array of the source is a list whose length is part of its
type (`Bytes`), or a list where the source takes a slice. A read at a fixed offset takes
the proof that the offset lies in the slice, so the source's index panics are excluded
where the reader is called; in the same way `encode` takes the proof that the payload
fits the frame.

## Main results

* `getU16_putU16`, `getU32_putU32`: the little-endian readers undo the writers.
* `toVec_encode`: the bytes that are sent for a frame are exactly its layout.
* `decodeStart_startPayload`: the injector reads the configuration that the host sent.
-/

namespace FaultForge

open FixedArray

/-- A byte array of the source, `[u8; n]`. -/
abbrev Bytes (n : ℕ) := List.Vector UInt8 n

/-! ### Constants -/

/-- The first byte of every frame. -/
def sync : UInt8 := 0x7E

/-- The longest payload. -/
def maxPayload : ℕ := 16

/-- The longest frame: sync, len, kind, payload and crc. -/
def maxFrame : ℕ := 3 + maxPayload + 1

/-- Host to injector: begin a campaign. -/
def kStart : UInt8 := 0x01
/-- Host to injector: link handshake. -/
def kPing : UInt8 := 0x02
/-- Host to injector: stop the current campaign. -/
def kAbort : UInt8 := 0x03
/-- Injector to host: a measurement frame, which may be faulted. -/
def kSensor : UInt8 := 0x80
/-- Injector to host: ground-truth injection notice. -/
def kFault : UInt8 := 0x81
/-- Injector to host: campaign complete. -/
def kEnd : UInt8 := 0x82
/-- Injector to host: handshake reply. -/
def kPong : UInt8 := 0x83

/-- No fault: a clean slot. -/
def faultNone : UInt8 := 0
/-- One bit of the value is flipped. -/
def faultBitflip : UInt8 := 1
/-- One byte of the value is changed. -/
def faultByte : UInt8 := 2
/-- The frame is not sent. -/
def faultDrop : UInt8 := 3
/-- The frame comes late. -/
def faultDelay : UInt8 := 4
/-- The frame is sent twice. -/
def faultReplay : UInt8 := 5
/-- Junk bytes are sent. -/
def faultBurst : UInt8 := 6
/-- A physical glitch of the duty cycle, which no frame shows. -/
def faultDuty : UInt8 := 7

/-- The length of the weight vector, one entry for each of `faultBitflip`, …, `faultDuty`. -/
def nFaultKinds : ℕ := 7

/-- The length of a START payload. -/
def startPayloadLen : ℕ := 15
/-- The length of a sensor payload. -/
def sensorPayloadLen : ℕ := 10
/-- The length of a FAULT payload. -/
def faultPayloadLen : ℕ := 7
/-- The length of an END payload. -/
def endPayloadLen : ℕ := 6

/-- What the host asks the injector to run. -/
structure CampaignConfig where
  seed : UInt32
  packets : UInt16
  cadenceMs : UInt16
  weights : Bytes nFaultKinds
deriving DecidableEq

/-- A campaign without faults. -/
def CampaignConfig.clean (seed : UInt32) (packets cadenceMs : UInt16) : CampaignConfig :=
  { seed, packets, cadenceMs, weights := List.Vector.replicate nFaultKinds 0 }

/-! ### The campaign's random number generator -/

/-- The deterministic generator shared by the firmware injector and the host simulator. -/
structure Lcg where
  state : UInt32
deriving DecidableEq

namespace Lcg

/-- Mix the seed so adjacent seeds diverge immediately. -/
def new (seed : UInt32) : Lcg :=
  ⟨seed * 1664525 + 1013904223⟩

/-- The next draw and the generator after it. -/
def nextU32 (g : Lcg) : UInt32 × Lcg :=
  let s := g.state * 1103515245 + 12345
  (s, ⟨s⟩)

/-- The top byte of the next draw. -/
def nextU8 (g : Lcg) : UInt8 × Lcg :=
  ((g.nextU32.1 >>> 24).toUInt8, g.nextU32.2)

/-- A value in `[0, n)`; no draw is made for an empty range. -/
def below (g : Lcg) (n : UInt32) : UInt32 × Lcg :=
  if n = 0 then (0, g) else (g.nextU32.1 % n, g.nextU32.2)

end Lcg

/-! ### The checksum -/

/-- One bit of the checksum: shift left, reduce by the polynomial `0x07`. -/
def crcShift (c : UInt8) : UInt8 :=
  if c &&& 0x80 ≠ 0 then (c <<< 1) ^^^ 0x07 else c <<< 1

/-- CRC-8/ATM, most significant bit first, initial value 0. -/
def crc8 (data : List UInt8) : UInt8 :=
  data.foldl (fun c b => crcShift^[8] (c ^^^ b)) 0

-- The known vector of the crate's tests, "123456789".
example : crc8 [0x31, 0x32, 0x33, 0x34, 0x35, 0x36, 0x37, 0x38, 0x39] = 0xF4 := by decide +kernel

/-! ### Frames -/

/-- An encoded frame: a fixed buffer and the number of its bytes that are the frame. -/
abbrev Encoded := Bytes maxFrame × ℕ

/-- The bytes of an encoded frame, `buf[..n].to_vec()`. -/
def Encoded.toVec (f : Encoded) : List UInt8 :=
  f.1.toList.take f.2

/-- The bytes `[1, 3 + payload.len())` of a frame, which its checksum covers. -/
def covered (kind : UInt8) (payload : List UInt8) : List UInt8 :=
  UInt8.ofNat payload.length :: kind :: payload

/-- The documented layout of a frame. -/
def layout (kind : UInt8) (payload : List UInt8) : List UInt8 :=
  sync :: covered kind payload ++ [crc8 (covered kind payload)]

/-- The checksum covers length, kind and payload. -/
@[simp] theorem length_covered (kind : UInt8) (payload : List UInt8) :
    (covered kind payload).length = payload.length + 2 := rfl

/-- A frame is four bytes longer than its payload. -/
@[simp] theorem length_layout (kind : UInt8) (payload : List UInt8) :
    (layout kind payload).length = payload.length + 4 := by
  simp [layout]

/-- Encode a frame into a fixed buffer. -/
def encode (kind : UInt8) (payload : List UInt8) (h : payload.length ≤ maxPayload) : Encoded :=
  let dataEnd := 3 + payload.length
  (padded maxFrame 0 (sync :: covered kind payload ++ [crc8 (covered kind payload)])
    (by simp [maxFrame]; omega), dataEnd + 1)

/-- What is sent for a frame is its layout. -/
@[simp] theorem toVec_encode (kind : UInt8) (payload : List UInt8)
    (h : payload.length ≤ maxPayload) :
    (encode kind payload h).toVec = layout kind payload := by
  have hlen : 3 + payload.length + 1 = (layout kind payload).length := by
    rw [length_layout]; omega
  simp only [Encoded.toVec, encode]
  rw [hlen]
  exact take_padded 0 (layout kind payload) _

/-! ### Little-endian fields -/

/-- Write a word at an offset, low byte first. -/
def putU16 (d : List UInt8) (o : ℕ) (v : UInt16) : List UInt8 :=
  (d.set o v.toUInt8).set (o + 1) (v >>> 8).toUInt8

/-- Read a word at an offset. -/
def getU16 (d : List UInt8) (o : ℕ) (h : o + 1 < d.length) : UInt16 :=
  d[o].toUInt16 ||| (d[o + 1].toUInt16 <<< 8)

/-- Write a double word at an offset, low byte first. -/
def putU32 (d : List UInt8) (o : ℕ) (v : UInt32) : List UInt8 :=
  (((d.set o v.toUInt8).set (o + 1) (v >>> 8).toUInt8).set (o + 2) (v >>> 16).toUInt8).set
    (o + 3) (v >>> 24).toUInt8

/-- Read a double word at an offset. -/
def getU32 (d : List UInt8) (o : ℕ) (h : o + 3 < d.length) : UInt32 :=
  d[o].toUInt32 ||| (d[o + 1].toUInt32 <<< 8) ||| (d[o + 2].toUInt32 <<< 16) |||
    (d[o + 3].toUInt32 <<< 24)

/-- A field is written in place. -/
@[simp] theorem length_putU16 (d : List UInt8) (o : ℕ) (v : UInt16) :
    (putU16 d o v).length = d.length := by
  simp [putU16]

/-- So is a double word. -/
@[simp] theorem length_putU32 (d : List UInt8) (o : ℕ) (v : UInt32) :
    (putU32 d o v).length = d.length := by
  simp [putU32]

/-- A field placed above `k` bits that are already filled. -/
theorem or_shiftLeft {a b k : ℕ} (h : a < 2 ^ k) : a ||| b <<< k = a + b * 2 ^ k := by
  rw [Nat.or_comm, ← Nat.shiftLeft_add_eq_or_of_lt h, Nat.shiftLeft_eq, Nat.add_comm]

/-- A byte shifted inside a word keeps all its bits. -/
theorem shiftLeft_mod {b k w : ℕ} (hb : b < 2 ^ 8) (hk : k + 8 ≤ w) :
    b <<< k % 2 ^ w = b <<< k := by
  rw [Nat.shiftLeft_eq]
  refine Nat.mod_eq_of_lt ?_
  calc b * 2 ^ k < 2 ^ 8 * 2 ^ k := Nat.mul_lt_mul_of_pos_right hb (Nat.two_pow_pos k)
    _ = 2 ^ (k + 8) := by rw [← Nat.pow_add, Nat.add_comm]
    _ ≤ 2 ^ w := Nat.pow_le_pow_right (by omega) hk

/-- The two bytes of a word put it together again. -/
theorem joinU16 (v : UInt16) :
    v.toUInt8.toUInt16 ||| ((v >>> 8).toUInt8.toUInt16 <<< 8) = v := by
  have hv : v.toNat < 2 ^ 16 := v.toNat_lt
  apply UInt16.toNat_inj.mp
  simp only [UInt16.toNat_or, UInt16.toNat_shiftLeft, UInt8.toNat_toUInt16,
    UInt16.toNat_toUInt8, UInt16.toNat_shiftRight, UInt16.reduceToNat, Nat.reduceMod,
    Nat.shiftRight_eq_div_pow]
  rw [shiftLeft_mod (by omega) (by omega), or_shiftLeft (by omega)]
  omega

/-- The four bytes of a double word put it together again. -/
theorem joinU32 (v : UInt32) :
    v.toUInt8.toUInt32 ||| ((v >>> 8).toUInt8.toUInt32 <<< 8) |||
      ((v >>> 16).toUInt8.toUInt32 <<< 16) ||| ((v >>> 24).toUInt8.toUInt32 <<< 24) = v := by
  have hv : v.toNat < 2 ^ 32 := v.toNat_lt
  apply UInt32.toNat_inj.mp
  simp only [UInt32.toNat_or, UInt32.toNat_shiftLeft, UInt8.toNat_toUInt32,
    UInt32.toNat_toUInt8, UInt32.toNat_shiftRight, UInt32.reduceToNat, Nat.reduceMod,
    Nat.shiftRight_eq_div_pow]
  rw [shiftLeft_mod (k := 8) (by omega) (by omega), shiftLeft_mod (k := 16) (by omega) (by omega),
    shiftLeft_mod (k := 24) (by omega) (by omega), or_shiftLeft (k := 8) (by omega),
    or_shiftLeft (k := 16) (by omega), or_shiftLeft (k := 24) (by omega)]
  omega

/-- Reading a field undoes writing it. -/
theorem getU16_putU16 (d : List UInt8) (o : ℕ) (v : UInt16) (h : o + 1 < d.length) :
    getU16 (putU16 d o v) o (by simpa using h) = v := by
  simpa [getU16, putU16] using joinU16 v

/-- Reading a field undoes writing it. -/
theorem getU32_putU32 (d : List UInt8) (o : ℕ) (v : UInt32) (h : o + 3 < d.length) :
    getU32 (putU32 d o v) o (by simpa using h) = v := by
  simpa [getU32, putU32] using joinU32 v

/-! ### Host to injector -/

/-- The payload of a START frame: seed, packets, cadence and the seven weights. -/
def startPayload (cfg : CampaignConfig) : List UInt8 :=
  let p := putU32 (List.replicate startPayloadLen 0) 0 cfg.seed
  let p := putU16 p 4 cfg.packets
  let p := putU16 p 6 cfg.cadenceMs
  p.take 8 ++ cfg.weights.toList ++ p.drop (8 + nFaultKinds)

/-- The fields of START fill its payload. -/
@[simp] theorem length_startPayload (cfg : CampaignConfig) :
    (startPayload cfg).length = startPayloadLen := by
  have hw : cfg.weights.toList.length = nFaultKinds := cfg.weights.toList_length
  simp only [startPayload, List.length_append, List.length_take, List.length_drop,
    length_putU16, length_putU32, List.length_replicate, hw]
  rfl

/-- The START frame. -/
def encodeStart (cfg : CampaignConfig) : Encoded :=
  encode kStart (startPayload cfg) (by simp [startPayloadLen, maxPayload])

/-- The PING frame. -/
def encodePing : Encoded := encode kPing [] (Nat.zero_le _)

/-- The ABORT frame. -/
def encodeAbort : Encoded := encode kAbort [] (Nat.zero_le _)

/-- Read a START payload; a payload that is too short is refused. -/
def decodeStart (p : List UInt8) : Option CampaignConfig :=
  if h : p.length < startPayloadLen then none
  else
    have h : 15 ≤ p.length := Nat.le_of_not_lt h
    some
      { weights := ⟨(p.take (8 + nFaultKinds)).drop 8, by simp [nFaultKinds]; omega⟩
        seed := getU32 p 0 (by omega)
        packets := getU16 p 4 (by omega)
        cadenceMs := getU16 p 6 (by omega) }

/-- The injector reads the configuration that the host sent. -/
theorem decodeStart_startPayload (cfg : CampaignConfig) :
    decodeStart (startPayload cfg) = some cfg := by
  obtain ⟨seed, packets, cadenceMs, weights⟩ := cfg
  -- the weights are the seven bytes from offset 8 on
  have hweights : ((startPayload ⟨seed, packets, cadenceMs, weights⟩).take
      (8 + nFaultKinds)).drop 8 = weights.toList := by
    calc ((startPayload ⟨seed, packets, cadenceMs, weights⟩).take (8 + nFaultKinds)).drop 8
        = (weights.toList ++ []).take nFaultKinds := rfl
      _ = weights.toList := by
          rw [List.append_nil, List.take_of_length_le (weights.toList_length).le]
  rw [decodeStart, dif_neg (by simp)]
  refine congrArg some ((CampaignConfig.mk.injEq _ _ _ _ _ _ _ _).mpr ?_)
  exact ⟨joinU32 seed, joinU16 packets, joinU16 cadenceMs, Subtype.ext hweights⟩

/-! ### Injector to host -/

/-- The payload of a SENSOR frame: sequence number, value and fault id. -/
def sensorPayload (seq : UInt16) (value faultId : UInt32) : List UInt8 :=
  putU32 (putU32 (putU16 (List.replicate sensorPayloadLen 0) 0 seq) 2 value) 6 faultId

/-- The fields of a measurement fill its payload. -/
@[simp] theorem length_sensorPayload (seq : UInt16) (value faultId : UInt32) :
    (sensorPayload seq value faultId).length = sensorPayloadLen := by
  simp [sensorPayload]

/-- A measurement fits into a frame. -/
theorem sensorPayload_fits (seq : UInt16) (value faultId : UInt32) :
    (sensorPayload seq value faultId).length ≤ maxPayload := by
  rw [length_sensorPayload]
  decide

/-- The sensor frame. -/
def encodeSensor (seq : UInt16) (value faultId : UInt32) : Encoded :=
  encode kSensor (sensorPayload seq value faultId) (sensorPayload_fits seq value faultId)

/-- The payload of a FAULT frame: fault id, kind and the sequence number it hit. -/
def faultPayload (faultId : UInt32) (kind : UInt8) (atSeq : UInt16) : List UInt8 :=
  let p := putU32 (List.replicate faultPayloadLen 0) 0 faultId
  putU16 (p.set 4 kind) 5 atSeq

/-- The fields of an announcement fill its payload. -/
@[simp] theorem length_faultPayload (faultId : UInt32) (kind : UInt8) (atSeq : UInt16) :
    (faultPayload faultId kind atSeq).length = faultPayloadLen := by
  simp [faultPayload]

/-- An announcement fits into a frame. -/
theorem faultPayload_fits (faultId : UInt32) (kind : UInt8) (atSeq : UInt16) :
    (faultPayload faultId kind atSeq).length ≤ maxPayload := by
  rw [length_faultPayload]
  decide

/-- The FAULT frame. -/
def encodeFaultEvent (faultId : UInt32) (kind : UInt8) (atSeq : UInt16) : Encoded :=
  encode kFault (faultPayload faultId kind atSeq) (faultPayload_fits faultId kind atSeq)

/-- The payload of an END frame: the campaign's packets and faults. -/
def endPayload (packets : UInt16) (faults : UInt32) : List UInt8 :=
  putU32 (putU16 (List.replicate endPayloadLen 0) 0 packets) 2 faults

/-- The fields of END fill its payload. -/
@[simp] theorem length_endPayload (packets : UInt16) (faults : UInt32) :
    (endPayload packets faults).length = endPayloadLen := by
  simp [endPayload]

/-- END fits into a frame. -/
theorem endPayload_fits (packets : UInt16) (faults : UInt32) :
    (endPayload packets faults).length ≤ maxPayload := by
  rw [length_endPayload]
  decide

/-- The END frame. -/
def encodeEnd (packets : UInt16) (faults : UInt32) : Encoded :=
  encode kEnd (endPayload packets faults) (endPayload_fits packets faults)

/-- The PONG frame. -/
def encodePong : Encoded := encode kPong [] (Nat.zero_le _)

end FaultForge
