import FaultForge.Sequence

/-!
# Delayed Slots under an Ideal Clock

A DELAY slot holds its frame back, and the device under test should record a late arrival
for it. Here time passes in the sleeps of the injector only, and every frame is processed
the moment it is sent (`timed`).

A DELAY slot sleeps for two cadences before its frame, behind the one that ends the slot
before it. So the frames of neighbouring slots are at most three cadences apart
(`heard_slot`, `elapsed_slot`), while the late budget is four cadences and five
milliseconds. Nothing is ever late (`not_late`), and DELAY slots go unnoticed.

## Main results

* `not_late`: no slot of a campaign makes the device record a late arrival.
* `delaysNoticed_iff`: when every delay is noticed.
-/

namespace FaultForge

/-! ### Ideal time -/

/-- Milliseconds in the unit of the clock. -/
def nanosOf (ms : ℕ) : ℕ := ms * 1000000

/-- The frames of a message, correctly decoded. Junk leaves a number of garbage markers. -/
def Msg.frames (marks : List UInt8 → ℕ) : Msg → List DuFrame
  | junk bytes => List.replicate (marks bytes) (.ofDecoded .garbage)
  | m => m.frame.toList

/-- The frames that the host receives for the actions of the injector, with the clock when
each is processed: only sleeps take time. -/
def timed (marks : List UInt8 → ℕ) : ℕ → List Action → List (Clock × DuFrame)
  | _, [] => []
  | t, .sleep ms :: acts => timed marks (t + nanosOf ms) acts
  | t, .send m :: acts =>
      (m.frames marks).map (fun f => (fun _ => ⟨t⟩, f)) ++ timed marks t acts

/-- The time that the actions take. -/
def elapsed (acts : List Action) : ℕ :=
  (acts.map fun
    | .sleep ms => nanosOf ms
    | .send _ => 0).sum

/-- Nothing takes no time. -/
@[simp] theorem elapsed_nil : elapsed [] = 0 := rfl

/-- Sending takes no time. -/
@[simp] theorem elapsed_send (m : Msg) (acts : List Action) :
    elapsed (.send m :: acts) = elapsed acts := Nat.zero_add _

/-- Only sleeps do. -/
@[simp] theorem elapsed_sleep (ms : ℕ) (acts : List Action) :
    elapsed (.sleep ms :: acts) = nanosOf ms + elapsed acts := rfl

/-- Times add up. -/
@[simp] theorem elapsed_append (acts acts' : List Action) :
    elapsed (acts ++ acts') = elapsed acts + elapsed acts' := by
  simp [elapsed]

/-- What comes behind other actions is processed when their time has passed. -/
theorem timed_append (marks : List UInt8 → ℕ) (t : ℕ) (acts acts' : List Action) :
    timed marks t (acts ++ acts') = timed marks t acts ++ timed marks (t + elapsed acts) acts' := by
  induction acts generalizing t with
  | nil => rfl
  | cons a acts ih =>
      cases a with
      | send m => simp [timed, ih]
      | sleep ms => simp [timed, ih, Nat.add_assoc]

/-- The sensor frames that the host hears for the actions of the injector. -/
def heardFrames (marks : List UInt8 → ℕ) (t : ℕ) (acts : List Action) : List (Clock × DuFrame) :=
  (timed marks t acts).filter fun x => Dut.heard x.2

/-- The same of the frames that are heard. -/
theorem heardFrames_append (marks : List UInt8 → ℕ) (t : ℕ) (acts acts' : List Action) :
    heardFrames marks t (acts ++ acts') =
      heardFrames marks t acts ++ heardFrames marks (t + elapsed acts) acts' := by
  rw [heardFrames, timed_append, List.filter_append]
  rfl

/-- Nothing is heard of nothing. -/
@[simp] theorem heardFrames_nil (marks : List UInt8 → ℕ) (t : ℕ) : heardFrames marks t [] = [] :=
  rfl

/-- A sleep moves what is heard behind it. -/
@[simp] theorem heardFrames_sleep (marks : List UInt8 → ℕ) (t ms : ℕ) (acts : List Action) :
    heardFrames marks t (.sleep ms :: acts) = heardFrames marks (t + nanosOf ms) acts := rfl

/-- A sensor frame is heard when it is sent. -/
@[simp] theorem heardFrames_sensor (marks : List UInt8 → ℕ) (t : ℕ) (seq : UInt16)
    (value faultId : UInt32) (acts : List Action) :
    heardFrames marks t (.send (.sensor seq value faultId) :: acts) =
      (fun _ => ⟨t⟩, sensorFrame seq value faultId) :: heardFrames marks t acts := rfl

/-- An announcement takes no part in the sequence check. -/
@[simp] theorem heardFrames_fault (marks : List UInt8 → ℕ) (t : ℕ) (faultId : UInt32)
    (kind : UInt8) (seq : UInt16) (acts : List Action) :
    heardFrames marks t (.send (.fault faultId kind seq) :: acts) = heardFrames marks t acts := rfl

/-- Garbage markers are not heard. -/
@[simp] theorem heardFrames_junk (marks : List UInt8 → ℕ) (t : ℕ) (bytes : List UInt8)
    (acts : List Action) :
    heardFrames marks t (.send (.junk bytes) :: acts) = heardFrames marks t acts := by
  have hmarks : ((List.replicate (marks bytes) (DuFrame.ofDecoded .garbage)).map fun f =>
      ((fun _ => ⟨t⟩ : Clock), f)).filter (fun x => Dut.heard x.2) = [] :=
    List.filter_eq_nil_iff.mpr (by simp [Dut.heard, DuFrame.ofDecoded])
  rw [heardFrames, timed, List.filter_append, Msg.frames, hmarks]
  rfl

/-! ### One slot -/

/-- How long a slot waits before its frame. -/
def holdBack (cadenceMs : UInt16) (kind : UInt8) : ℕ :=
  if kind = faultDelay then nanosOf (cadenceMs.toNat * 2) else 0

namespace SharedCfg

variable (marks : List UInt8 → ℕ) (c : SharedCfg) (kind : UInt8) (seq : UInt16) (value : UInt32)
  (t : ℕ)

/-- An arm takes the time for which it holds its frame back. -/
theorem elapsed_emitKind : elapsed (c.emitKind kind seq value).2 = holdBack c.cadenceMs kind := by
  rcases kind_cases kind with h | rfl | rfl | rfl | rfl | h
  · rw [emitKind_corrupt h]
    rcases h with rfl | rfl <;> rfl
  · rfl
  · simp [emitKind_delay, emitDelay, holdBack]
  · rfl
  · rfl
  · have hdelay : kind ≠ faultDelay := ne_of_not_injected h (by decide)
    rw [emitKind_clean h, holdBack, if_neg hdelay]
    rfl

/-- The frames of an arm, all at the time until which it holds them back. -/
theorem heardFrames_emitKind :
    ∃ v fid, heardFrames marks t (c.emitKind kind seq value).2 =
      List.replicate (sensorCount kind)
        (fun _ => ⟨t + holdBack c.cadenceMs kind⟩, sensorFrame seq v fid) := by
  rcases kind_cases kind with h | rfl | rfl | rfl | rfl | h
  · rw [emitKind_corrupt h]
    rcases h with rfl | rfl <;> exact ⟨_, _, rfl⟩
  · exact ⟨0, 0, rfl⟩
  · have hcount : sensorCount faultDelay = 1 := rfl
    exact ⟨value, 0, by simp [emitKind_delay, emitDelay, holdBack, hcount]⟩
  · exact ⟨_, _, rfl⟩
  · have hcount : sensorCount faultBurst = 1 := rfl
    have hhold : holdBack c.cadenceMs faultBurst = 0 := rfl
    exact ⟨value, 0, by simp [emitKind_burst, emitBurst, hhold, hcount]⟩
  · have hdelay : kind ≠ faultDelay := ne_of_not_injected h (by decide)
    rw [emitKind_clean h, sensorCount_of_not_injected h, holdBack, if_neg hdelay]
    exact ⟨_, _, rfl⟩

/-- A slot takes a cadence more than its arm. -/
theorem elapsed_slot :
    elapsed (c.emitSlot kind).2 = holdBack c.cadenceMs kind + nanosOf c.cadenceMs.toNat := by
  rw [emitSlot, elapsed_append, elapsed_emitKind, elapsed_sleep, elapsed_nil, Nat.add_zero]

/-- The frames of a slot. -/
theorem heard_slot :
    ∃ v fid, heardFrames marks t (c.emitSlot kind).2 =
      List.replicate (sensorCount kind)
        (fun _ => ⟨t + holdBack c.cadenceMs kind⟩, sensorFrame c.seq v fid) := by
  obtain ⟨v, fid, h⟩ := heardFrames_emitKind marks
    { c with seq := c.seq + 1, sent := c.sent + 1, rng := (c.rng.below 50).2 } kind c.seq
    (100 + (c.rng.below 50).1) t
  refine ⟨v, fid, ?_⟩
  rw [emitSlot, heardFrames_append, h, heardFrames_sleep, heardFrames_nil, List.append_nil]

end SharedCfg

/-! ### Nothing is late -/

/-- The sequence check does not find a frame late against the one before it. -/
def NotLate (cadenceMs : UInt16) (x y : Clock × DuFrame) : Prop :=
  pairCheck cadenceMs x y ≠ some .late

variable {cadenceMs : UInt16} {x y : Clock × DuFrame}

/-- Only the frame with the next number can be late, and only outside the budget. -/
theorem notLate_of_onTime (h : y.2.seq = x.2.seq + 1 → OnTime cadenceMs x y) :
    NotLate cadenceMs x y := by
  by_cases hseq : y.2.seq = x.2.seq + 1
  · rw [NotLate, pairCheck_eq_none hseq (h hseq)]
    exact nofun
  · simp only [NotLate, pairCheck, hseq, if_false]
    split
    · simp
    · split <;> simp

/-- A stream of frames that are not late has no late anomaly. -/
theorem kind_ne_late_of_isChain (prev : Option (Clock × DuFrame)) {ys : List (Clock × DuFrame)}
    (h : (prev.toList ++ ys).IsChain (NotLate cadenceMs)) :
    ∀ n ∈ anomalies cadenceMs prev ys, n.1 ≠ .late := by
  induction ys generalizing prev with
  | nil => simp [anomalies]
  | cons y ys ih =>
      intro n hn
      rw [anomalies, List.mem_append] at hn
      rcases hn with hn | hn
      · cases prev with
        | none => simp at hn
        | some x =>
            obtain ⟨k, hk, rfl⟩ := Option.map_eq_some_iff.mp (Option.mem_toList.mp hn)
            have hxy : NotLate cadenceMs x y := (List.isChain_cons_cons.mp h).1
            exact fun hlate => hxy (hk.trans (congrArg some hlate))
      · exact ih (some y) h.right_of_append n hn

/-- **What is known between two slots**, at time `t` before slot `i`: the frame heard last is
of an earlier slot, and if that is slot `i - 1`, a cadence has passed since. -/
structure Paced (cadenceMs : UInt16) (prev : Option (Clock × DuFrame)) (i t : ℕ) : Prop where
  seq : ∀ x ∈ prev, ∃ s < i, x.2.seq = UInt16.ofNat s ∧
    (s + 1 = i → t = (x.1 1).nanos + nanosOf cadenceMs.toNat)

variable {prev : Option (Clock × DuFrame)} {i t : ℕ}

/-- A slot without a frame. -/
theorem Paced.unheard (h : Paced cadenceMs prev i t) (t' : ℕ) :
    Paced cadenceMs prev (i + 1) t' := by
  refine ⟨fun x hx => ?_⟩
  obtain ⟨s, hs, hseq, -⟩ := h.seq x hx
  exact ⟨s, by omega, hseq, fun hsi => by omega⟩

/-- The frame of slot `i` is on time, if it is the one after the frame heard last: two
cadences come on top of one at most. -/
theorem Paced.onTime (h : Paced cadenceMs prev i t) (hi : i < 2 ^ 16) (kind : UInt8)
    (hseq : y.2.seq = UInt16.ofNat i) (htime : (y.1 1).nanos = t + holdBack cadenceMs kind) :
    ∀ x ∈ prev, y.2.seq = x.2.seq + 1 → OnTime cadenceMs x y := by
  intro x hx hnext
  obtain ⟨s, hs, hlast, hpace⟩ := h.seq x hx
  have hsi : s + 1 = i := by
    have heq := congrArg UInt16.toNat (hseq.symm.trans (hnext.trans (congrArg (· + 1) hlast)))
    have hone : (1 : UInt16).toNat = 1 := rfl
    rw [UInt16.toNat_add, UInt16.toNat_ofNat_of_lt' (show i < 2 ^ 16 from hi),
      UInt16.toNat_ofNat_of_lt' (show s < 2 ^ 16 by omega)] at heq
    omega
  have hhold : holdBack cadenceMs kind ≤ nanosOf (cadenceMs.toNat * 2) := by
    rw [holdBack]
    split
    · exact le_rfl
    · exact Nat.zero_le _
  have hlast := hpace hsi
  simp only [OnTime, Instant.millisSince, htime, nanosOf] at *
  omega

/-- The next frame is heard as often as the slot sends it. -/
theorem isChain_replicate_append {α : Type*} {R : α → α → Prop} {prev : Option α} {y : α}
    {rest : List α} (n : ℕ) (hyy : R y y) (hprev : ∀ x ∈ prev, R x y)
    (hrest : (y :: rest).IsChain R) :
    (prev.toList ++ (List.replicate (n + 1) y ++ rest)).IsChain R := by
  have hcopies : ∀ m, (List.replicate (m + 1) y ++ rest).IsChain R := by
    intro m
    induction m with
    | zero => exact hrest
    | succ m ih => exact List.isChain_cons_cons.mpr ⟨hyy, ih⟩
  cases prev with
  | none => exact hcopies n
  | some x => exact List.isChain_cons_cons.mpr ⟨hprev x rfl, hcopies n⟩

/-- **One slot**: its frames are not late, and what comes behind them starts from its frame,
or from the frame before if it has none. -/
theorem Paced.slot (h : Paced cadenceMs prev i t) (hi : i < 2 ^ 16) (kind : UInt8) (n : ℕ)
    {rest : List (Clock × DuFrame)} (hseq : y.2.seq = UInt16.ofNat i)
    (htime : (y.1 1).nanos = t + holdBack cadenceMs kind)
    (hrest : ∀ prev', Paced cadenceMs prev' (i + 1)
        (t + (holdBack cadenceMs kind + nanosOf cadenceMs.toNat)) →
      (prev'.toList ++ rest).IsChain (NotLate cadenceMs)) :
    (prev.toList ++ (List.replicate n y ++ rest)).IsChain (NotLate cadenceMs) := by
  have hnext : Paced cadenceMs (some y) (i + 1)
      (t + (holdBack cadenceMs kind + nanosOf cadenceMs.toNat)) := by
    refine ⟨fun x hx => ?_⟩
    obtain rfl := Option.mem_some_iff.mp hx
    exact ⟨i, Nat.lt_succ_self i, hseq, fun _ => by rw [htime, Nat.add_assoc]⟩
  cases n with
  | zero => exact hrest prev (h.unheard _)
  | succ n =>
      refine isChain_replicate_append n ?_ ?_ (hrest (some y) hnext)
      · -- a second copy has the same number, not the next
        exact notLate_of_onTime fun heq => absurd heq (by simp)
      · exact fun x hx => notLate_of_onTime (h.onTime hi kind hseq htime x hx)

/-- **No slot is late**: in the frames heard of a campaign, none is late against the one
before it. -/
theorem isChain_calls (marks : List UInt8 → ℕ) (t : ℕ) {c : SharedCfg} {f : ℕ} (k : ℕ)
    (h : c.Counts i f) (hk : i + k ≤ c.packets.toNat) (hprev : Paced c.cadenceMs prev i t) :
    (prev.toList ++ heardFrames marks t ((c.calls k).2.flatMap Call.actions)).IsChain
      (NotLate c.cadenceMs) := by
  induction k generalizing c i f t prev with
  | zero =>
      cases prev with
      | none => exact .nil
      | some x => exact .singleton x
  | succ k ih =>
      have hpackets := c.packets.toNat_lt
      obtain ⟨-, hcounts, hsame⟩ := SharedCfg.counts_runNext h (by omega)
      have hrun := SharedCfg.runNext_of_lt (c := c) (by rw [h.sent]; omega)
      obtain ⟨g, hpick⟩ := c.pick_state
      obtain ⟨g', hstate⟩ := SharedCfg.emitSlot_state c.pick.2 c.pick.1
      have hpickcad : c.pick.2.cadenceMs = c.cadenceMs := by rw [hpick]
      have hcad : c.runNext.2.1.cadenceMs = c.cadenceMs := by rw [hrun, hstate, hpickcad]
      have hseq : c.pick.2.seq = UInt16.ofNat i := by rw [hpick, ← h.seq, UInt16.ofNat_toNat]
      obtain ⟨v, fid, hslot⟩ := c.pick.2.heard_slot marks c.pick.1 t
      have helapsed := c.pick.2.elapsed_slot c.pick.1
      rw [hpickcad, hseq] at hslot
      rw [hpickcad] at helapsed
      have hacts : c.runNext.2.2 = (c.pick.2.emitSlot c.pick.1).2 := by rw [hrun]
      rw [SharedCfg.calls, List.flatMap_cons, heardFrames_append, hacts, hslot, helapsed]
      refine hprev.slot (by omega) c.pick.1 _ (seq_sensorFrame _ v fid) rfl
        fun prev' hprev' => ?_
      have hrest := ih _ hcounts (by rw [hsame]; omega) (hcad ▸ hprev')
      rwa [hcad] at hrest

/-! ### What becomes of the delays -/

/-- The slots of a campaign. -/
def slots (cfg : CampaignConfig) : List Call :=
  ((SharedCfg.ofConfig cfg).calls cfg.packets.toNat).2

/-- The detections of a campaign under the ideal clock, from a starting time on. -/
def idealDetections (marks : List UInt8 → ℕ) (start : ℕ) (cfg : CampaignConfig) :
    List Detection :=
  (receive (.new cfg.cadenceMs) []
    (timed marks start ((slots cfg).flatMap Call.actions))).1.detections

/-- **Every delay is noticed, and nothing else is late**: of the slots right behind one that
sent its frame, those that are delayed are recorded as late under their number, and no
others. -/
def DelaysNoticed (marks : List UInt8 → ℕ) (start : ℕ) (cfg : CampaignConfig) : Prop :=
  ∀ i before slot, (slots cfg)[i]? = some before → (slots cfg)[i + 1]? = some slot →
    sensorFrames before.actions ≠ [] →
    ((∃ e ∈ idealDetections marks start cfg, e.kind = .late ∧ e.seq = UInt16.ofNat (i + 1)) ↔
      slot.kind = faultDelay)

/-- **Nothing is ever late** under the ideal clock. -/
theorem not_late (marks : List UInt8 → ℕ) (start : ℕ) (cfg : CampaignConfig) :
    ∀ e ∈ idealDetections marks start cfg, e.kind ≠ .late := by
  intro e he hlate
  have hstart : Paced (SharedCfg.ofConfig cfg).cadenceMs none 0 start := ⟨by simp⟩
  have hchain := isChain_calls marks start cfg.packets.toNat (SharedCfg.counts_ofConfig cfg)
    (by simp [SharedCfg.ofConfig]) hstart
  have hheard := List.IsChain.prefix hchain (heard_processed_isPrefix _)
  rw [idealDetections, receive_fst] at he
  have hsequence : e.ofSequence = true := by simp [Detection.ofSequence, hlate]
  have hnote := List.mem_map_of_mem (f := Detection.note) (List.mem_filter.mpr ⟨he, hsequence⟩)
  rw [feed_anomalies (baseline_new cfg.cadenceMs)] at hnote
  exact kind_ne_late_of_isChain none hheard _ hnote hlate

/-- A slot sends its frame iff it is no DROP. -/
theorem sensorFrames_ne_nil_iff {cfg : CampaignConfig} {i : ℕ} {call : Call}
    (h : (slots cfg)[i]? = some call) : sensorFrames call.actions ≠ [] ↔ call.kind ≠ faultDrop := by
  have hslots : SlotsFrom 0 0 (slots cfg) := (SharedCfg.calls_fresh cfg le_rfl).2.1
  obtain ⟨hi, rfl⟩ := List.getElem?_eq_some_iff.mp h
  obtain ⟨v, fid, hsensors⟩ := (hslots.get hi).sensors
  rw [hsensors, ne_eq, List.replicate_eq_nil_iff, sensorCount]
  split
  · next hdrop => simp [hdrop]
  · next hdrop => split <;> simp [hdrop]

/-- **When delays are noticed**: iff no slot is delayed that comes right behind one that
sends its frame, that is, behind a slot other than DROP. -/
theorem delaysNoticed_iff (marks : List UInt8 → ℕ) (start : ℕ) (cfg : CampaignConfig) :
    DelaysNoticed marks start cfg ↔
      ∀ i before slot, (slots cfg)[i]? = some before → (slots cfg)[i + 1]? = some slot →
        before.kind ≠ faultDrop → slot.kind ≠ faultDelay := by
  have hnone : ∀ seq, ¬ ∃ e ∈ idealDetections marks start cfg, e.kind = .late ∧ e.seq = seq :=
    fun seq ⟨e, he, hlate, _⟩ => not_late marks start cfg e he hlate
  constructor
  · intro h i before slot hbefore hslot hdrop hdelay
    exact hnone _ ((h i before slot hbefore hslot
      ((sensorFrames_ne_nil_iff hbefore).mpr hdrop)).mpr hdelay)
  · intro h i before slot hbefore hslot hsensors
    have hdelay := h i before slot hbefore hslot ((sensorFrames_ne_nil_iff hbefore).mp hsensors)
    exact ⟨fun hlate => absurd hlate (hnone _), fun hkind => absurd hkind hdelay⟩

/-- The weights of a campaign that picks nothing but DELAYs. -/
theorem length_delayWeights : ([0, 0, 0, 100, 0, 0, 0] : List UInt8).length = nFaultKinds := rfl

/-- A campaign of two delayed slots. -/
def twoDelays : CampaignConfig where
  seed := 1
  packets := 2
  cadenceMs := 5
  weights := ⟨_, length_delayWeights⟩

/-- The second of two delayed slots is not recorded as late. -/
theorem twoDelays_not_noticed : ¬ DelaysNoticed (fun _ => 0) 0 twoDelays := by
  intro h
  have hkinds : (slots twoDelays).map Call.kind = [faultDelay, faultDelay] := by decide +kernel
  have hsensors : ((slots twoDelays).map fun call => sensorFrames call.actions).all (· ≠ []) := by
    decide +kernel
  have hquiet : idealDetections (fun _ => 0) 0 twoDelays = [] := by decide +kernel
  match hslots : slots twoDelays with
  | [] => simp [hslots] at hkinds
  | [_] => simp [hslots] at hkinds
  | before :: slot :: rest =>
      rw [hslots] at hkinds hsensors
      simp only [List.map_cons, List.cons.injEq, List.all_cons, Bool.and_eq_true,
        decide_eq_true_eq] at hkinds hsensors
      have hlate := (h 0 before slot (by rw [hslots]; rfl) (by rw [hslots]; rfl)
        hsensors.1).mpr hkinds.2.1
      simp [hquiet] at hlate

end FaultForge
