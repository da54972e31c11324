import Mathlib.Tactic.Ring
import FaultForge.Delays
import FaultForge.Flawless

/-!
# What a Campaign Costs

How long a campaign takes and how many bytes it puts on the link is decided by the kinds of its
slots. One slot is priced first (`Priced`); the prices add up over the calls of a campaign.

## Main results

* `priced_calls`: what every slot of a campaign costs.
* `campaign_budget`: what a whole campaign costs.
-/

namespace FaultForge

/-- One, if the condition holds. -/
def once (p : Prop) [Decidable p] : ℕ :=
  if p then 1 else 0

/-- The number of bytes of a message. -/
def Msg.cost : Msg → ℕ
  | pong => 4
  | sensor .. => 14
  | fault .. => 11
  | campaignEnd .. => 10
  | junk bytes => bytes.length

/-- A message has as many bytes on the wire as its cost says. -/
theorem Msg.length_bytes (m : Msg) : m.bytes.length = m.cost := by
  cases m with
  | pong => rfl
  | sensor seq value faultId =>
      rw [bytes, encodeSensor, toVec_encode, length_layout, length_sensorPayload]
      rfl
  | fault faultId kind atSeq =>
      rw [bytes, encodeFaultEvent, toVec_encode, length_layout, length_faultPayload]
      rfl
  | campaignEnd packets faults =>
      rw [bytes, encodeEnd, toVec_encode, length_layout, length_endPayload]
      rfl
  | junk bytes => rfl

/-- The number of bytes that the actions put on the link. -/
def cost (acts : List Action) : ℕ :=
  (acts.map fun
    | .send m => m.cost
    | .sleep _ => 0).sum

/-- Costs add up. -/
theorem cost_append (acts acts' : List Action) : cost (acts ++ acts') = cost acts + cost acts' := by
  rw [cost, List.map_append, List.sum_append, ← cost, ← cost]

/-- So the cost of a campaign is the number of the bytes that it sends. -/
theorem length_bytesOf (acts : List Action) : (bytesOf acts).length = cost acts := by
  rw [bytesOf, cost, List.length_flatMap]
  congr 1
  refine List.map_congr_left fun a _ => ?_
  cases a with
  | send m => exact m.length_bytes
  | sleep ms => rfl

/-- As many junk bytes are drawn as asked for. -/
theorem length_drawBytes (k : ℕ) (g : Lcg) : (drawBytes k g).1.length = k := by
  induction k generalizing g with
  | zero => rfl
  | succ k ih => rw [drawBytes, List.length_cons, ih]

/-! ### One slot -/

/-- What a slot of a kind costs: the time until the next one, its frames, and its bytes. A sensor
frame has fourteen bytes, a FAULT frame eleven, and the junk of a BURST six. -/
structure Priced (cadenceMs : UInt16) (kind : UInt8) (acts : List Action) : Prop where
  time : elapsed acts = nanosOf (cadenceMs.toNat * (1 + 2 * once (kind = faultDelay)))
  sensors : (sensorFrames acts).length + once (kind = faultDrop) = 1 + once (kind = faultReplay)
  faults : (faultEvents acts).length = once (Injected kind)
  bytes : cost acts + 14 * once (kind = faultDrop) = 14 + 14 * once (kind = faultReplay) +
    11 * once (Injected kind) + 6 * once (kind = faultBurst)

/-- A DROP costs least, a REPLAY most. -/
theorem Priced.cost_bounds {cadenceMs : UInt16} {kind : UInt8} {acts : List Action}
    (h : Priced cadenceMs kind acts) : 11 ≤ cost acts ∧ cost acts ≤ 39 := by
  have hbytes := h.bytes
  have hone : ∀ (p : Prop) [Decidable p], once p ≤ 1 := fun p _ => by
    rw [once]
    split <;> decide
  have hinjected := hone (Injected kind)
  by_cases hdrop : kind = faultDrop
  · subst hdrop
    simp only [once, show Injected faultDrop by decide, if_true,
      show faultDrop ≠ faultReplay by decide, show faultDrop ≠ faultBurst by decide,
      if_false] at hbytes
    omega
  · have hexcl : once (kind = faultReplay) + once (kind = faultBurst) ≤ 1 := by
      by_cases hreplay : kind = faultReplay
      · subst hreplay
        decide
      · rw [once, if_neg hreplay, Nat.zero_add]
        exact hone _
    rw [show once (kind = faultDrop) = 0 from if_neg hdrop] at hbytes
    omega

namespace SharedCfg

variable (c : SharedCfg) (kind : UInt8)

/-- Every slot has one sensor frame, but a DROP has none and a REPLAY has two. -/
theorem sensorCount_add_once : sensorCount kind + once (kind = faultDrop) =
    1 + once (kind = faultReplay) := by
  rw [sensorCount, once, once]
  split
  · next hdrop =>
    subst hdrop
    rfl
  · split <;> rfl

/-- The bytes of an arm. -/
theorem cost_emitKind (seq : UInt16) (value : UInt32) :
    cost (c.emitKind kind seq value).2 + 14 * once (kind = faultDrop) =
      14 + 14 * once (kind = faultReplay) + 11 * once (Injected kind) +
        6 * once (kind = faultBurst) := by
  rcases kind_cases kind with h | rfl | rfl | rfl | rfl | h
  · rw [emitKind_corrupt h]
    rcases h with rfl | rfl <;> rfl
  · rfl
  · rfl
  · rfl
  · have hjunk : cost (c.emitBurst faultBurst seq value).2 =
        (drawBytes 6 c.rng).1.length + 25 := rfl
    rw [emitKind_burst, hjunk, length_drawBytes]
    rfl
  · have hne : ∀ k, Injected k → once (kind = k) = 0 := fun k hk =>
      if_neg (ne_of_not_injected h hk)
    rw [emitKind_clean h, hne _ injected_drop, hne _ (by decide), hne _ (by decide), once,
      if_neg h]
    rfl

/-- **What a slot costs.** -/
theorem priced_emitSlot : Priced c.cadenceMs kind (c.emitSlot kind).2 where
  time := by
    rw [elapsed_slot, holdBack, once]
    split <;> simp only [nanosOf] <;> omega
  sensors := by
    obtain ⟨v, fid, h⟩ := c.sensorFrames_emitSlot kind
    rw [h, List.length_replicate, sensorCount_add_once]
  faults := by
    rw [faultEvents_emitSlot, once]
    split <;> rfl
  bytes := by
    have harm := cost_emitKind
      { c with seq := c.seq + 1, sent := c.sent + 1, rng := (c.rng.below 50).2 } kind c.seq
      (100 + (c.rng.below 50).1)
    rw [emitSlot, cost_append]
    exact harm

variable {c} {i f : ℕ}

/-- **What every slot of a campaign costs.** -/
theorem priced_calls (k : ℕ) (h : c.Counts i f) (hk : i + k ≤ c.packets.toNat) :
    ∀ call ∈ (c.calls k).2, Priced c.cadenceMs call.kind call.actions := by
  induction k generalizing c i f with
  | zero => exact fun call hcall => absurd hcall List.not_mem_nil
  | succ k ih =>
      obtain ⟨-, hcounts, hpackets⟩ := counts_runNext h (by omega)
      obtain ⟨g, hpick⟩ := c.pick_state
      have hrun := runNext_of_lt (c := c) (by rw [h.sent]; omega)
      have hcadence : c.runNext.2.1.cadenceMs = c.cadenceMs := by
        obtain ⟨g', hslot⟩ := c.pick.2.emitSlot_state c.pick.1
        rw [hrun, hslot, hpick]
      rw [calls, List.forall_mem_cons]
      constructor
      · rw [hrun]
        have hslot := c.pick.2.priced_emitSlot c.pick.1
        rwa [show c.pick.2.cadenceMs = c.cadenceMs by rw [hpick]] at hslot
      · rw [← hcadence]
        exact ih hcounts (by rw [hpackets]; omega)

end SharedCfg

/-! ### Whole campaigns -/

/-- How many of the slots satisfy the condition. -/
def slotsWith (log : List Call) (p : UInt8 → Prop) [DecidablePred p] : ℕ :=
  log.countP fun call => p call.kind

/-- The slots with a property, call by call. -/
theorem slotsWith_cons (call : Call) (log : List Call) (p : UInt8 → Prop) [DecidablePred p] :
    slotsWith (call :: log) p = slotsWith log p + once (p call.kind) := by
  rw [slotsWith, List.countP_cons, once]
  simp only [decide_eq_true_eq, slotsWith]

/-- **The prices add up.** -/
theorem priced_flatMap {cadenceMs : UInt16} {log : List Call}
    (h : ∀ call ∈ log, Priced cadenceMs call.kind call.actions) :
    let acts := log.flatMap Call.actions
    elapsed acts = nanosOf (cadenceMs.toNat * (log.length + 2 * slotsWith log (· = faultDelay))) ∧
    (sensorFrames acts).length + slotsWith log (· = faultDrop) =
      log.length + slotsWith log (· = faultReplay) ∧
    (faultEvents acts).length = slotsWith log Injected ∧
    cost acts + 14 * slotsWith log (· = faultDrop) =
      14 * log.length + 14 * slotsWith log (· = faultReplay) + 11 * slotsWith log Injected +
        6 * slotsWith log (· = faultBurst) ∧
    11 * log.length ≤ cost acts ∧ cost acts ≤ 39 * log.length := by
  induction log with
  | nil => exact ⟨by simp [slotsWith, nanosOf], rfl, rfl, rfl, Nat.zero_le _, Nat.zero_le _⟩
  | cons call log ih =>
      obtain ⟨hcall, hlog⟩ := List.forall_mem_cons.mp h
      obtain ⟨htime, hsensors, hfaults, hbytes, hleast, hmost⟩ := ih hlog
      obtain ⟨hleast', hmost'⟩ := hcall.cost_bounds
      have hframes : ∀ acts acts' : List Action,
          (sensorFrames (acts ++ acts')).length =
            (sensorFrames acts).length + (sensorFrames acts').length ∧
          (faultEvents (acts ++ acts')).length =
            (faultEvents acts).length + (faultEvents acts').length := by
        intro acts acts'
        simp [sensorFrames, faultEvents, List.filterMap_append]
      simp only [List.flatMap_cons, List.length_cons, slotsWith_cons]
      refine ⟨?_, ?_, ?_, ?_, ?_, ?_⟩
      · rw [elapsed_append, hcall.time, htime]
        simp only [nanosOf]
        ring
      · rw [(hframes _ _).1]
        have hslot := hcall.sensors
        omega
      · rw [(hframes _ _).2, hcall.faults, hfaults, Nat.add_comm]
      · rw [cost_append]
        have hslot := hcall.bytes
        omega
      · rw [cost_append]
        omega
      · rw [cost_append]
        omega

/-- **What a whole campaign costs.** Before END, and with the kinds that its slots have, a campaign
takes a cadence for each slot and two more for each DELAY; it puts a sensor frame of fourteen
bytes on the link for each slot, but none for a DROP and two for a REPLAY, an announcement of
eleven bytes for each injected fault, and six bytes of junk for each BURST. So it puts most on the
link with nothing but REPLAYs, and least with nothing but DROPs. -/
theorem campaign_budget (cfg : CampaignConfig) :
    let log := slots cfg
    let acts := log.flatMap Call.actions
    log.length = cfg.packets.toNat ∧
    elapsed acts =
      nanosOf (cfg.cadenceMs.toNat * (cfg.packets.toNat + 2 * slotsWith log (· = faultDelay))) ∧
    (sensorFrames acts).length + slotsWith log (· = faultDrop) =
      cfg.packets.toNat + slotsWith log (· = faultReplay) ∧
    (faultEvents acts).length = slotsWith log Injected ∧
    (bytesOf acts).length + 14 * slotsWith log (· = faultDrop) =
      14 * cfg.packets.toNat + 14 * slotsWith log (· = faultReplay) +
        11 * slotsWith log Injected + 6 * slotsWith log (· = faultBurst) ∧
    11 * cfg.packets.toNat ≤ (bytesOf acts).length ∧
    (bytesOf acts).length ≤ 39 * cfg.packets.toNat := by
  intro log acts
  have hlen : log.length = cfg.packets.toNat := (SharedCfg.calls_fresh cfg le_rfl).1
  have hpriced : ∀ call ∈ log, Priced cfg.cadenceMs call.kind call.actions :=
    SharedCfg.priced_calls cfg.packets.toNat (SharedCfg.counts_ofConfig cfg)
      (by rw [Nat.zero_add]; rfl)
  rw [length_bytesOf, ← hlen]
  exact ⟨rfl, priced_flatMap hpriced⟩

end FaultForge
