import FaultForge.Injector

/-!
# The Ground-Truth Ledger of a Campaign

The host scores a campaign against the FAULT events that the injector announces. This
module follows the injector's counters through a whole campaign: `calls` repeats
`runNext` and logs each call with the state it started from.

The invariant is `Counts c i f`: at the start of slot `i` the sequence number and the
number of sent packets are `i`, and `f` faults have been announced. All three are exact
naturals, so no counter has wrapped. `counts_runNext` is the step, `calls_spec` the run.

The second part is about the slots that are meant to corrupt their frame: the corruption
is applied before the frame is encoded, so the checksum covers it.

## Main results

* `ground_truth_accounting`: the ledger of a whole campaign.
* `corruption_never_observable`: a BITFLIP or BYTE slot emits a well-formed frame.
-/

namespace FaultForge

/-- One call of `runNext`: the state before it, its result and its actions. -/
structure Call where
  before : SharedCfg
  exhausted : Bool
  actions : List Action

namespace Call

/-- The kind that the call picks. -/
def kind (call : Call) : UInt8 :=
  call.before.pick.1

/-- The FAULT events the call announces. -/
def faults (call : Call) : List (UInt32 × UInt8 × UInt16) :=
  faultEvents call.actions

end Call

namespace SharedCfg

/-- Call `runNext` a number of times: the state reached and the log of the calls. -/
def calls : ℕ → SharedCfg → SharedCfg × List Call
  | 0, c => (c, [])
  | k + 1, c =>
      let rest := calls k c.runNext.2.1
      (rest.1, ⟨c, c.runNext.1, c.runNext.2.2⟩ :: rest.2)

/-- At the start of slot `i`, after `f` faults. -/
structure Counts (c : SharedCfg) (i f : ℕ) : Prop where
  seq : c.seq.toNat = i
  sent : c.sent.toNat = i
  faultId : c.faultId.toNat = f
  le : f ≤ i

/-- A fresh campaign has no slots behind it. -/
theorem counts_ofConfig (cfg : CampaignConfig) : (ofConfig cfg).Counts 0 0 :=
  ⟨rfl, rfl, rfl, le_rfl⟩

end SharedCfg

/-- What one call logs as slot `i` of a campaign, after `f` faults. -/
structure SlotAt (i f : ℕ) (call : Call) : Prop where
  counts : call.before.Counts i f
  running : call.exhausted = false
  sensors : ∃ v fid, sensorFrames call.actions =
    List.replicate (sensorCount call.kind) (UInt16.ofNat i, v, fid)
  faults : call.faults =
    if Injected call.kind then [(UInt32.ofNat (f + 1), call.kind, UInt16.ofNat i)] else []

/-- The calls are the slots `i`, `i + 1`, … of a campaign, after `f` faults. -/
inductive SlotsFrom : ℕ → ℕ → List Call → Prop
  | nil (i f : ℕ) : SlotsFrom i f []
  | cons {i f : ℕ} {call : Call} {log : List Call} : SlotAt i f call →
      SlotsFrom (i + 1) (f + call.faults.length) log → SlotsFrom i f (call :: log)

namespace SharedCfg

variable {c : SharedCfg} {i f : ℕ}

/-- **One slot.** A call before the last packet counts one slot, and one fault if it
announces one. -/
theorem counts_runNext (h : c.Counts i f) (hi : i < c.packets.toNat) :
    SlotAt i f ⟨c, c.runNext.1, c.runNext.2.2⟩ ∧
      c.runNext.2.1.Counts (i + 1) (f + (faultEvents c.runNext.2.2).length) ∧
      c.runNext.2.1.packets = c.packets := by
  have hlt : c.packets.toNat < 2 ^ 16 := c.packets.toNat_lt
  have hle := h.le
  have hrun := runNext_of_lt (c := c) (by rw [h.sent]; exact hi)
  obtain ⟨g, hpick⟩ := c.pick_state
  obtain ⟨g', hstate⟩ := emitSlot_state c.pick.2 c.pick.1
  obtain ⟨v, fid, hsens⟩ := sensorFrames_emitSlot c.pick.2 c.pick.1
  have hfaults := faultEvents_emitSlot c.pick.2 c.pick.1
  rw [hpick] at hstate hsens hfaults
  have hseq : UInt16.ofNat i = c.seq := by rw [← h.seq, UInt16.ofNat_toNat]
  have hfid : UInt32.ofNat (f + 1) = c.faultId + 1 := by
    rw [← h.faultId, UInt32.ofNat_add, UInt32.ofNat_toNat]
    rfl
  rw [hrun, hpick]
  refine ⟨⟨h, rfl, ⟨v, fid, by rw [hseq]; exact hsens⟩, ?_⟩, ?_, by rw [hstate]⟩
  · rw [hseq, hfid]
    exact hfaults
  · rw [hfaults, hstate]
    refine ⟨?_, ?_, ?_, ?_⟩
    · rw [UInt16.toNat_add, h.seq]
      exact Nat.mod_eq_of_lt (by simp; omega)
    · rw [UInt16.toNat_add, h.sent]
      exact Nat.mod_eq_of_lt (by simp; omega)
    · split
      · rw [UInt32.toNat_add, h.faultId]
        exact Nat.mod_eq_of_lt (by simp; omega)
      · exact h.faultId
    · split <;> simp <;> omega

/-- **A run of slots.** As long as packets are left, the calls are the slots that follow,
and the counters stay exact. -/
theorem calls_spec (k : ℕ) (h : c.Counts i f) (hk : i + k ≤ c.packets.toNat) :
    (c.calls k).2.length = k ∧ SlotsFrom i f (c.calls k).2 ∧
      (c.calls k).1.Counts (i + k) (f + ((c.calls k).2.flatMap Call.faults).length) ∧
      (c.calls k).1.packets = c.packets := by
  induction k generalizing c i f with
  | zero => exact ⟨rfl, SlotsFrom.nil i f, by simpa [calls] using h, rfl⟩
  | succ k ih =>
      obtain ⟨hslot, hcounts, hpackets⟩ := counts_runNext h (by omega)
      obtain ⟨hlen, hslots, hend, hpackets'⟩ := ih hcounts (by rw [hpackets]; omega)
      refine ⟨by simp [calls, hlen], SlotsFrom.cons hslot hslots, ?_, hpackets'.trans hpackets⟩
      have hi : i + (k + 1) = i + 1 + k := by omega
      simp only [calls, List.flatMap_cons, List.length_append]
      rw [hi, ← Nat.add_assoc]
      exact hend

/-- The first calls of a fresh campaign. -/
theorem calls_fresh (cfg : CampaignConfig) {k : ℕ} (hk : k ≤ cfg.packets.toNat) :
    ((ofConfig cfg).calls k).2.length = k ∧ SlotsFrom 0 0 ((ofConfig cfg).calls k).2 ∧
      ((ofConfig cfg).calls k).1.Counts k
        (((ofConfig cfg).calls k).2.flatMap Call.faults).length ∧
      ((ofConfig cfg).calls k).1.packets = cfg.packets := by
  have h := calls_spec k (counts_ofConfig cfg) (by rw [Nat.zero_add]; exact hk)
  rwa [Nat.zero_add, Nat.zero_add] at h

end SharedCfg

/-! ### What the log of a run says -/

namespace SlotsFrom

variable {i f : ℕ} {log : List Call}

/-- The slot at a position of the log. -/
theorem get (h : SlotsFrom i f log) {j : ℕ} (hj : j < log.length) :
    SlotAt (i + j) (f + ((log.take j).flatMap Call.faults).length) log[j] := by
  induction h generalizing j with
  | nil => exact absurd hj (Nat.not_lt_zero j)
  | @cons i f call log hslot _ ih =>
      cases j with
      | zero => simpa using hslot
      | succ j =>
          have hslotj := ih (j := j) (by simpa using hj)
          have hi : i + (j + 1) = i + 1 + j := by omega
          rw [List.take_succ_cons, List.flatMap_cons, List.length_append, hi, ← Nat.add_assoc]
          exact hslotj

/-- The fault ids are consecutive. -/
theorem map_faultId (h : SlotsFrom i f log) :
    (log.flatMap Call.faults).map (fun e => e.1.toNat) =
      List.range' (f + 1) (log.flatMap Call.faults).length := by
  induction h with
  | nil => rfl
  | @cons i f call log hslot _ ih =>
      have hi : i < 2 ^ 16 := hslot.counts.seq ▸ call.before.seq.toNat_lt
      have hf : f ≤ i := hslot.counts.le
      have hid : (UInt32.ofNat (f + 1)).toNat = f + 1 :=
        UInt32.toNat_ofNat_of_lt' (show f + 1 < 2 ^ 32 by omega)
      rw [hslot.faults] at ih
      rw [List.flatMap_cons, hslot.faults, List.map_append, List.length_append]
      split
      · next hinj =>
        rw [if_pos hinj] at ih
        rw [List.map_singleton, hid, ih, List.length_singleton, Nat.add_comm 1,
          List.range'_succ]
        rfl
      · next hinj =>
        rw [if_neg hinj] at ih
        simpa using ih

/-- The sequence numbers of the FAULT events strictly increase from `i` on. -/
theorem pairwise_atSeq (h : SlotsFrom i f log) :
    ((log.flatMap Call.faults).map fun e => e.2.2.toNat).Pairwise (· < ·) ∧
      ∀ e ∈ log.flatMap Call.faults, i ≤ e.2.2.toNat := by
  induction h with
  | nil => exact ⟨List.Pairwise.nil, fun e he => absurd he (List.not_mem_nil)⟩
  | @cons i f call log hslot _ ih =>
      obtain ⟨hpw, hge⟩ := ih
      have hi : i < 2 ^ 16 := hslot.counts.seq ▸ call.before.seq.toNat_lt
      have hseq : (UInt16.ofNat i).toNat = i := UInt16.toNat_ofNat_of_lt' hi
      rw [List.flatMap_cons, hslot.faults]
      split
      · refine ⟨List.Pairwise.cons (fun s hs => ?_) hpw, fun e he => ?_⟩
        · obtain ⟨e, he, rfl⟩ := List.mem_map.mp hs
          exact hseq.trans_lt (hge e he)
        · rcases List.mem_cons.mp he with rfl | he
          · exact hseq.ge
          · exact (Nat.le_succ i).trans (hge e he)
      · exact ⟨hpw, fun e he => (Nat.le_succ i).trans (hge e he)⟩

end SlotsFrom

/-- **Ground-truth accounting of a whole campaign.** Called on a fresh campaign, `runNext`
returns `false` exactly `packets` times and then `true`. Call `i` starts from exact
counters, emits the sensor frames that its kind asks for, all the same and with sequence
number `i`, and announces its kind at `i` exactly when it injects a fault. The fault ids
are `1, 2, …`, the announced sequence numbers strictly increase, and END carries the
number of packets and of announced faults. -/
theorem ground_truth_accounting (cfg : CampaignConfig) :
    let run := (SharedCfg.ofConfig cfg).calls cfg.packets.toNat
    let events := run.2.flatMap Call.faults
    run.2.length = cfg.packets.toNat ∧
    (∀ i (h : i < run.2.length),
      run.2[i].exhausted = false ∧
      run.2[i].before.seq.toNat = i ∧ run.2[i].before.sent.toNat = i ∧
      run.2[i].before.faultId.toNat = ((run.2.take i).flatMap Call.faults).length ∧
      (∃ v fid, sensorFrames run.2[i].actions =
        List.replicate (sensorCount run.2[i].kind) (UInt16.ofNat i, v, fid)) ∧
      run.2[i].faults.map Prod.snd =
        if Injected run.2[i].kind then [(run.2[i].kind, UInt16.ofNat i)] else []) ∧
    run.1.seq.toNat = cfg.packets.toNat ∧ run.1.sent.toNat = cfg.packets.toNat ∧
    run.1.faultId.toNat = events.length ∧
    run.1.runNext =
      (true, run.1, [.send (.campaignEnd cfg.packets (UInt32.ofNat events.length))]) ∧
    events.map (fun e => e.1.toNat) = List.range' 1 events.length ∧
    (events.map fun e => e.2.2.toNat).Pairwise (· < ·) := by
  intro run events
  obtain ⟨hlen, hslots, hend, hpackets⟩ := SharedCfg.calls_fresh cfg le_rfl
  have hp : run.1.packets = cfg.packets := hpackets
  have hfid : run.1.faultId = UInt32.ofNat events.length := by
    rw [← hend.faultId, UInt32.ofNat_toNat]
  refine ⟨hlen, fun i h => ?_, hend.seq, hend.sent, hend.faultId, ?_, hslots.map_faultId,
    hslots.pairwise_atSeq.1⟩
  · have hslot := hslots.get h
    rw [Nat.zero_add, Nat.zero_add] at hslot
    refine ⟨hslot.running, hslot.counts.seq, hslot.counts.sent, hslot.counts.faultId,
      hslot.sensors, ?_⟩
    rw [hslot.faults]
    split <;> rfl
  · rw [SharedCfg.runNext, if_pos, hp, hfid]
    rw [UInt16.le_iff_toNat_le, hp]
    exact hend.sent.ge

/-! ### Slots that are meant to corrupt their frame -/

/-- A frame under the documented layout: sync, length, kind, payload, and the checksum of
length, kind and payload. -/
def WellFormed (bs : List UInt8) : Prop :=
  ∃ kind payload, payload.length ≤ maxPayload ∧ bs = layout kind payload

/-- The bytes of the sensor frames among the actions. -/
def sensorBytes (acts : List Action) : List (List UInt8) :=
  (sensorFrames acts).map fun s => (Msg.sensor s.1 s.2.1 s.2.2).bytes

/-- Injected corruption is observable in the next slot: no sensor frame that it emits is
well formed. -/
def CorruptionObservable (c : SharedCfg) : Prop :=
  ∀ bs ∈ sensorBytes c.runNext.2.2, ¬ WellFormed bs

/-- Whatever sequence number, value and fault id a sensor frame carries, it is well
formed: its checksum is computed from what it carries. -/
theorem wellFormed_sensor (seq : UInt16) (value faultId : UInt32) :
    WellFormed (Msg.sensor seq value faultId).bytes :=
  ⟨kSensor, sensorPayload seq value faultId,
    sensorPayload_fits _ _ _, toVec_encode _ _ _⟩

/-- **Injected corruption is never observable**: a slot that picks BITFLIP or BYTE emits
a well-formed sensor frame. -/
theorem corruption_never_observable (c : SharedCfg) (hsent : c.sent < c.packets)
    (hkind : c.pick.1 = faultBitflip ∨ c.pick.1 = faultByte) : ¬ CorruptionObservable c := by
  intro hobs
  have hrun := SharedCfg.runNext_of_lt (UInt16.lt_iff_toNat_lt.mp hsent)
  obtain ⟨v, fid, hsens⟩ := SharedCfg.sensorFrames_emitSlot c.pick.2 c.pick.1
  have hcount : sensorCount c.pick.1 = 1 := by
    rcases hkind with h | h <;> rw [h] <;> rfl
  refine hobs (Msg.sensor c.pick.2.seq v fid).bytes ?_ (wellFormed_sensor _ v fid)
  rw [hrun, sensorBytes, hsens, hcount]
  simp

/-- A campaign of one packet. -/
def oneSlotCampaign (weights : Bytes nFaultKinds) : SharedCfg :=
  .ofConfig { seed := 1, packets := 1, cadenceMs := 5, weights }

/-- The only slot of a BITFLIP campaign emits a well-formed frame. -/
theorem bitflip_not_observable :
    ¬ CorruptionObservable (oneSlotCampaign ⟨[1, 0, 0, 0, 0, 0, 0], rfl⟩) :=
  corruption_never_observable _ (by decide) (Or.inl (by decide +kernel))

/-- So does the only slot of a BYTE campaign: its value 116 is sent as 2768240756,
with a checksum that covers it. -/
theorem byte_frame_wellFormed :
    ¬ ((oneSlotCampaign ⟨[0, 1, 0, 0, 0, 0, 0], rfl⟩).pick.1 = faultByte →
      CorruptionObservable (oneSlotCampaign ⟨[0, 1, 0, 0, 0, 0, 0], rfl⟩)) := by
  intro hobs
  have hframe : sensorBytes (oneSlotCampaign ⟨[0, 1, 0, 0, 0, 0, 0], rfl⟩).runNext.2.2 =
      [(Msg.sensor 0 2768240756 1).bytes] := by decide +kernel
  refine hobs (by decide +kernel) _ ?_ (wellFormed_sensor 0 2768240756 1)
  rw [hframe]
  exact List.mem_singleton_self _

end FaultForge
