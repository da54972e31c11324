import Mathlib.Data.UInt
import FaultForge.Wire

/-!
# The Simulated Injector

The campaign engine of the simulated link, `SharedCfg`: a copy of the firmware's engine
that, call by call, draws a fault kind from the weights and emits what the injector puts
on the link for one slot of the cadence.

A call of `runNext` returns whether the campaign is exhausted, the state after the call,
and the actions of the call in order: the messages handed to `blocking_send` and the
sleeps. A message stands for the bytes that one encoder produces (`Msg.bytes`). The
counters have the widths of the source; their increments wrap, so a counter that counts
exactly has not overflowed.

The body of `runNext` behind the draw is `emitSlot`, a function of the kind that was
picked; each arm of the source's `match` is a definition of its own.

## Main results

* `emitSlot_state`: what a slot does to the counters.
* `sensorFrames_emitSlot`, `faultEvents_emitSlot`, `endFrames_emitSlot`: what a slot puts
  on the link.
-/

namespace FaultForge

/-- A message on the link, as the arguments of the encoder that produced its bytes. -/
inductive Msg where
  | pong
  | sensor (seq : UInt16) (value faultId : UInt32)
  | fault (faultId : UInt32) (kind : UInt8) (atSeq : UInt16)
  | campaignEnd (packets : UInt16) (faults : UInt32)
  /-- Bytes that are no frame. -/
  | junk (bytes : List UInt8)
deriving DecidableEq

/-- The bytes that are sent for a message. -/
def Msg.bytes : Msg → List UInt8
  | pong => encodePong.toVec
  | sensor seq value faultId => (encodeSensor seq value faultId).toVec
  | fault faultId kind atSeq => (encodeFaultEvent faultId kind atSeq).toVec
  | campaignEnd packets faults => (encodeEnd packets faults).toVec
  | junk bytes => bytes

/-- What the injector thread does besides computing. -/
inductive Action where
  /-- `blocking_send` of a message's bytes. -/
  | send (m : Msg)
  /-- Sleep for a number of milliseconds. -/
  | sleep (ms : ℕ)
deriving DecidableEq

/-- The state of a running campaign. -/
structure SharedCfg where
  packets : UInt16
  cadenceMs : UInt16
  weights : Bytes nFaultKinds
  rng : Lcg
  seq : UInt16
  faultId : UInt32
  sent : UInt16
deriving DecidableEq

/-- The loop of `pick`: walk the weights from index `i` on, subtracting each weight from
the draw until the draw falls inside one. -/
def pickFrom : ℕ → UInt32 → List UInt8 → UInt8
  | _, _, [] => 0
  | i, r, w :: ws =>
      if r < w.toUInt32 then UInt8.ofNat i + 1 else pickFrom (i + 1) (r - w.toUInt32) ws

/-- Draw `k` bytes. -/
def drawBytes : ℕ → Lcg → List UInt8 × Lcg
  | 0, g => ([], g)
  | k + 1, g =>
      let rest := drawBytes k g.nextU8.2
      (g.nextU8.1 :: rest.1, rest.2)

namespace SharedCfg

/-- The state of a fresh campaign. -/
def ofConfig (c : CampaignConfig) : SharedCfg where
  packets := c.packets
  cadenceMs := c.cadenceMs
  weights := c.weights
  rng := Lcg.new c.seed
  seq := 0
  faultId := 0
  sent := 0

/-- Draw the kind of the next slot in proportion to the weights. -/
def pick (c : SharedCfg) : UInt8 × SharedCfg :=
  let total := (c.weights.toList.map UInt8.toUInt32).sum
  if total = 0 then (0, c)
  else
    let draw := c.rng.below total
    (pickFrom 0 draw.1 c.weights.toList, { c with rng := draw.2 })

/-! ### The arms of a slot -/

/-- The payload that BITFLIP and BYTE corrupt: the value in a sensor payload that is zero
elsewhere. -/
def valuePayload (value : UInt32) : List UInt8 :=
  putU32 (List.replicate sensorPayloadLen 0) 2 value

/-- The corruption: one bit of the value's two low bytes, or one of its bytes. -/
def corrupt (kind : UInt8) (g : Lcg) (payload : List UInt8) : List UInt8 × Lcg :=
  if kind = faultBitflip then
    let bit := g.below 16
    (payload.modify (2 + (bit.1 >>> 3).toNat) (· ^^^ (1 <<< (bit.1 &&& 7).toUInt8)), bit.2)
  else
    let idx := g.below 4
    (payload.modify (2 + idx.1.toNat) (· ^^^ 0xA5), idx.2)

/-- A corruption changes bytes in place. -/
@[simp] theorem length_corrupt (kind : UInt8) (g : Lcg) (payload : List UInt8) :
    (corrupt kind g payload).1.length = payload.length := by
  unfold corrupt
  split <;> simp

/-- BITFLIP and BYTE: corrupt the value, encode what came out, announce the fault. -/
def emitCorrupt (c : SharedCfg) (kind : UInt8) (seq : UInt16) (value : UInt32) :
    SharedCfg × List Action :=
  let fid := c.faultId + 1
  let payload := corrupt kind c.rng (valuePayload value)
  let read := getU32 payload.1 2 (by simp [payload, valuePayload, sensorPayloadLen])
  ({ c with faultId := fid, rng := payload.2 },
    [.send (.sensor seq read fid), .send (.fault fid kind seq)])

/-- DROP: announce the fault and send no frame. -/
def emitDrop (c : SharedCfg) (kind : UInt8) (seq : UInt16) (_value : UInt32) :
    SharedCfg × List Action :=
  let fid := c.faultId + 1
  ({ c with faultId := fid }, [.send (.fault fid kind seq)])

/-- DELAY: sleep for two cadences before the frame. -/
def emitDelay (c : SharedCfg) (kind : UInt8) (seq : UInt16) (value : UInt32) :
    SharedCfg × List Action :=
  let fid := c.faultId + 1
  ({ c with faultId := fid },
    [.sleep (c.cadenceMs.toNat * 2), .send (.sensor seq value 0), .send (.fault fid kind seq)])

/-- REPLAY: send the frame twice. -/
def emitReplay (c : SharedCfg) (kind : UInt8) (seq : UInt16) (value : UInt32) :
    SharedCfg × List Action :=
  let fid := c.faultId + 1
  ({ c with faultId := fid },
    [.send (.sensor seq value 0), .send (.sensor seq value 0), .send (.fault fid kind seq)])

/-- BURST: six junk bytes before the frame. -/
def emitBurst (c : SharedCfg) (kind : UInt8) (seq : UInt16) (value : UInt32) :
    SharedCfg × List Action :=
  let fid := c.faultId + 1
  let junk := drawBytes 6 c.rng
  ({ c with faultId := fid, rng := junk.2 },
    [.send (.junk junk.1), .send (.sensor seq value 0), .send (.fault fid kind seq)])

/-- Every other kind: the frame alone. -/
def emitClean (c : SharedCfg) (seq : UInt16) (value : UInt32) : SharedCfg × List Action :=
  (c, [.send (.sensor seq value 0)])

/-- The `match` of `run_next` on the kind that was picked. -/
def emitKind (c : SharedCfg) (kind : UInt8) (seq : UInt16) (value : UInt32) :
    SharedCfg × List Action :=
  if kind = faultBitflip ∨ kind = faultByte then c.emitCorrupt kind seq value
  else if kind = faultDrop then c.emitDrop kind seq value
  else if kind = faultDelay then c.emitDelay kind seq value
  else if kind = faultReplay then c.emitReplay kind seq value
  else if kind = faultBurst then c.emitBurst kind seq value
  else c.emitClean seq value

/-- What `run_next` does once the kind of the slot is known. -/
def emitSlot (c : SharedCfg) (kind : UInt8) : SharedCfg × List Action :=
  let seq := c.seq
  let draw := c.rng.below 50
  let value := 100 + draw.1
  let r := emitKind { c with seq := c.seq + 1, sent := c.sent + 1, rng := draw.2 } kind seq value
  (r.1, r.2 ++ [.sleep c.cadenceMs.toNat])

/-- Emit whatever the injector would for the next slot in the cadence; the first
component tells whether the campaign is exhausted. -/
def runNext (c : SharedCfg) : Bool × SharedCfg × List Action :=
  if c.packets ≤ c.sent then (true, c, [.send (.campaignEnd c.packets c.faultId)])
  else (false, c.pick.2.emitSlot c.pick.1)

end SharedCfg

/-! ### What a slot puts on the link -/

/-- The kinds for which a slot announces a fault, BITFLIP to BURST. -/
def Injected (kind : UInt8) : Prop :=
  faultBitflip ≤ kind ∧ kind ≤ faultBurst

instance (kind : UInt8) : Decidable (Injected kind) :=
  inferInstanceAs (Decidable (_ ∧ _))

/-- How many sensor frames a slot emits. -/
def sensorCount (kind : UInt8) : ℕ :=
  if kind = faultDrop then 0 else if kind = faultReplay then 2 else 1

/-- The sensor frames among the actions: sequence number, value and fault id. -/
def sensorFrames (acts : List Action) : List (UInt16 × UInt32 × UInt32) :=
  acts.filterMap fun
    | .send (.sensor seq value faultId) => some (seq, value, faultId)
    | _ => none

/-- The FAULT events among the actions: fault id, kind and sequence number. -/
def faultEvents (acts : List Action) : List (UInt32 × UInt8 × UInt16) :=
  acts.filterMap fun
    | .send (.fault faultId kind atSeq) => some (faultId, kind, atSeq)
    | _ => none

/-- The END frames among the actions: packets and faults. -/
def endFrames (acts : List Action) : List (UInt16 × UInt32) :=
  acts.filterMap fun
    | .send (.campaignEnd packets faults) => some (packets, faults)
    | _ => none

/-- The kinds are those of the arms, or a kind that emits a clean slot. -/
theorem kind_cases (kind : UInt8) :
    (kind = faultBitflip ∨ kind = faultByte) ∨ kind = faultDrop ∨ kind = faultDelay ∨
      kind = faultReplay ∨ kind = faultBurst ∨ ¬ Injected kind := by
  simp only [Injected, faultBitflip, faultByte, faultDrop, faultDelay, faultReplay, faultBurst,
    ← UInt8.toNat_inj, UInt8.le_iff_toNat_le, UInt8.reduceToNat]
  omega

namespace SharedCfg

variable {c : SharedCfg} {kind : UInt8} {seq : UInt16} {value : UInt32}

/-- A kind that is no fault is none of the kinds that are. -/
theorem ne_of_not_injected {k : UInt8} (h : ¬ Injected kind) (hk : Injected k) : kind ≠ k :=
  fun heq => h (heq ▸ hk)

/-- A DROP is an injected fault. -/
theorem injected_drop : Injected faultDrop := by decide

/-- The arm of the `match` for BITFLIP and BYTE. -/
theorem emitKind_corrupt (h : kind = faultBitflip ∨ kind = faultByte) :
    c.emitKind kind seq value = c.emitCorrupt kind seq value :=
  if_pos h

/-- The arm for DROP. -/
theorem emitKind_drop : c.emitKind faultDrop seq value = c.emitDrop faultDrop seq value := rfl

/-- The arm for DELAY. -/
theorem emitKind_delay : c.emitKind faultDelay seq value = c.emitDelay faultDelay seq value := rfl

/-- The arm for REPLAY. -/
theorem emitKind_replay :
    c.emitKind faultReplay seq value = c.emitReplay faultReplay seq value := rfl

/-- The arm for BURST. -/
theorem emitKind_burst : c.emitKind faultBurst seq value = c.emitBurst faultBurst seq value := rfl

/-- The last arm: DUTY and the kinds that are no fault emit a clean slot. -/
theorem emitKind_clean (h : ¬ Injected kind) :
    c.emitKind kind seq value = c.emitClean seq value := by
  have hne : ∀ k, Injected k → kind ≠ k := fun _ => ne_of_not_injected h
  rw [emitKind, if_neg (not_or.mpr ⟨hne _ (by decide), hne _ (by decide)⟩),
    if_neg (hne _ (by decide)), if_neg (hne _ (by decide)), if_neg (hne _ (by decide)),
    if_neg (hne _ (by decide))]

/-- BITFLIP and BYTE are injected faults. -/
theorem injected_of_corrupt (h : kind = faultBitflip ∨ kind = faultByte) : Injected kind := by
  rcases h with rfl | rfl <;> decide

/-- A kind that is no fault emits the one frame of a clean slot. -/
theorem sensorCount_of_not_injected (h : ¬ Injected kind) : sensorCount kind = 1 := by
  rw [sensorCount, if_neg (ne_of_not_injected h injected_drop),
    if_neg (ne_of_not_injected h (by decide))]

/-- An arm changes nothing of the campaign but the fault id and the generator; the fault
id grows by one exactly when the arm injects a fault. -/
theorem emitKind_state (c : SharedCfg) (kind : UInt8) (seq : UInt16) (value : UInt32) :
    ∃ g, (c.emitKind kind seq value).1 =
      { c with faultId := if Injected kind then c.faultId + 1 else c.faultId, rng := g } := by
  rcases kind_cases kind with h | rfl | rfl | rfl | rfl | h
  · rw [emitKind_corrupt h, if_pos (injected_of_corrupt h)]
    exact ⟨_, rfl⟩
  · exact ⟨_, rfl⟩
  · exact ⟨_, rfl⟩
  · exact ⟨_, rfl⟩
  · exact ⟨_, rfl⟩
  · rw [emitKind_clean h, if_neg h]
    exact ⟨c.rng, rfl⟩

/-- The sensor frames of an arm: as many as the kind asks for, all the same, with the
slot's sequence number. -/
theorem sensorFrames_emitKind (c : SharedCfg) (kind : UInt8) (seq : UInt16) (value : UInt32) :
    ∃ v fid, sensorFrames (c.emitKind kind seq value).2 =
      List.replicate (sensorCount kind) (seq, v, fid) := by
  rcases kind_cases kind with h | rfl | rfl | rfl | rfl | h
  · rw [emitKind_corrupt h]
    rcases h with rfl | rfl <;> exact ⟨_, _, rfl⟩
  · exact ⟨0, 0, rfl⟩
  · exact ⟨_, _, rfl⟩
  · exact ⟨_, _, rfl⟩
  · exact ⟨_, _, rfl⟩
  · rw [emitKind_clean h, sensorCount_of_not_injected h]
    exact ⟨_, _, rfl⟩

/-- The FAULT events of an arm: one exactly when the arm injects a fault, with the next
fault id, the kind and the slot's sequence number. -/
theorem faultEvents_emitKind (c : SharedCfg) (kind : UInt8) (seq : UInt16) (value : UInt32) :
    faultEvents (c.emitKind kind seq value).2 =
      if Injected kind then [(c.faultId + 1, kind, seq)] else [] := by
  rcases kind_cases kind with h | rfl | rfl | rfl | rfl | h
  · rw [emitKind_corrupt h, if_pos (injected_of_corrupt h)]
    rfl
  · rfl
  · rfl
  · rfl
  · rfl
  · rw [emitKind_clean h, if_neg h]
    rfl

/-- No arm sends END. -/
theorem endFrames_emitKind (c : SharedCfg) (kind : UInt8) (seq : UInt16) (value : UInt32) :
    endFrames (c.emitKind kind seq value).2 = [] := by
  rcases kind_cases kind with h | rfl | rfl | rfl | rfl | h
  · rw [emitKind_corrupt h]
    rfl
  · rfl
  · rfl
  · rfl
  · rfl
  · rw [emitKind_clean h]
    rfl

variable (c kind)

/-- **What a slot does to the campaign**: it counts the slot, and the fault if there is
one, and changes nothing else but the generator. -/
theorem emitSlot_state :
    ∃ g, (c.emitSlot kind).1 =
      { c with
        seq := c.seq + 1
        sent := c.sent + 1
        faultId := if Injected kind then c.faultId + 1 else c.faultId
        rng := g } := by
  obtain ⟨g, hg⟩ := emitKind_state
    { c with seq := c.seq + 1, sent := c.sent + 1, rng := (c.rng.below 50).2 } kind c.seq
    (100 + (c.rng.below 50).1)
  exact ⟨g, hg⟩

/-- The actions of a slot are those of its arm and a sleep. -/
theorem emitSlot_actions :
    ∃ (c' : SharedCfg) (value : UInt32), c'.faultId = c.faultId ∧
      (c.emitSlot kind).2 =
        (c'.emitKind kind c.seq value).2 ++ [.sleep c.cadenceMs.toNat] :=
  ⟨{ c with seq := c.seq + 1, sent := c.sent + 1, rng := (c.rng.below 50).2 }, _, rfl, rfl⟩

/-- The sensor frames of a slot are all the same frame, with the number of the slot. -/
theorem sensorFrames_emitSlot :
    ∃ v fid, sensorFrames (c.emitSlot kind).2 =
      List.replicate (sensorCount kind) (c.seq, v, fid) := by
  obtain ⟨c', value, -, hacts⟩ := c.emitSlot_actions kind
  obtain ⟨v, fid, h⟩ := c'.sensorFrames_emitKind kind c.seq value
  refine ⟨v, fid, ?_⟩
  rw [hacts, ← h]
  simp [sensorFrames]

/-- A slot announces its fault, if it has one, under the next id. -/
theorem faultEvents_emitSlot :
    faultEvents (c.emitSlot kind).2 =
      if Injected kind then [(c.faultId + 1, kind, c.seq)] else [] := by
  obtain ⟨c', value, hfid, hacts⟩ := c.emitSlot_actions kind
  rw [hacts, ← hfid, ← c'.faultEvents_emitKind kind c.seq value]
  simp [faultEvents]

/-- No slot sends END. -/
theorem endFrames_emitSlot : endFrames (c.emitSlot kind).2 = [] := by
  obtain ⟨c', value, -, hacts⟩ := c.emitSlot_actions kind
  rw [hacts, ← c'.endFrames_emitKind kind c.seq value]
  simp [endFrames]

/-- A call before the last packet draws a kind and emits its slot. -/
theorem runNext_of_lt {c : SharedCfg} (h : c.sent.toNat < c.packets.toNat) :
    c.runNext = (false, c.pick.2.emitSlot c.pick.1) := by
  rw [runNext, if_neg]
  rw [UInt16.le_iff_toNat_le]
  omega

/-- The draw of a kind changes the generator only. -/
theorem pick_state : ∃ g, c.pick.2 = { c with rng := g } := by
  simp only [pick]
  split
  · exact ⟨c.rng, rfl⟩
  · exact ⟨_, rfl⟩

end SharedCfg

end FaultForge
