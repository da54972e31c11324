import FaultForge.Codec
import FaultForge.Ledger
import FaultForge.Noticed

/-!
# Calibration for Sequence Faults

What becomes of the drops and replays of a campaign: the injector emits the frames of its
slots, the host receives them correctly decoded, the device under test follows the
sequence numbers, and the scorer pairs every announced fault with a detection of its own.

`receive_slots` is the induction over the slots: the host's loop adds what `Noticed` allows
for them. Its steps are one lemma for each frame (`Tracks.process_first`,
`Tracks.process_again`, `receive_fault`), and its invariant is `Tracks`: which slot the
device under test has heard last.

## Main results

* `calls_eq_emitSlots`: prescribing the kinds that were drawn changes nothing.
* `missed_eq_zero_iff`: no drop or replay is missed iff every drop is isolated.
-/

namespace FaultForge

open FirstFit

/-! ### Frames as the host should see them -/

/-- The frame that a correct receiver makes of the layout of a kind and a payload. -/
def correctFrame (kind : UInt8) (payload : List UInt8) (h : payload.length ≤ maxPayload) :
    DuFrame :=
  .ofDecoded (.frame kind (zeroPadded payload h) payload.length h)

/-- The frame of a SENSOR message. -/
def sensorFrame (seq : UInt16) (value faultId : UInt32) : DuFrame :=
  correctFrame kSensor (sensorPayload seq value faultId) (sensorPayload_fits seq value faultId)

/-- The frame of a FAULT message. -/
def faultFrame (faultId : UInt32) (kind : UInt8) (atSeq : UInt16) : DuFrame :=
  correctFrame kFault (faultPayload faultId kind atSeq) (faultPayload_fits faultId kind atSeq)

/-- The frame of the END message. -/
def endFrame (packets : UInt16) (faults : UInt32) : DuFrame :=
  correctFrame kEnd (endPayload packets faults) (endPayload_fits packets faults)

/-- The frame of a message, correctly decoded; junk is no frame. -/
def Msg.frame : Msg → Option DuFrame
  | pong => some (correctFrame kPong [] (Nat.zero_le _))
  | sensor seq value faultId => some (sensorFrame seq value faultId)
  | fault faultId kind atSeq => some (faultFrame faultId kind atSeq)
  | campaignEnd packets faults => some (endFrame packets faults)
  | junk _ => none

/-- The frames that the host receives for the actions of the injector. -/
def hostFrames (acts : List Action) : List DuFrame :=
  acts.filterMap fun
    | .send m => m.frame
    | .sleep _ => none

@[simp] theorem hostFrames_append (acts acts' : List Action) :
    hostFrames (acts ++ acts') = hostFrames acts ++ hostFrames acts' :=
  List.filterMap_append

/-- A correct sensor frame takes part in the sequence check. -/
theorem heard_sensorFrame (seq : UInt16) (value faultId : UInt32) :
    Dut.heard (sensorFrame seq value faultId) = true := rfl

/-- The device under test reads back the sequence number of a sensor frame. -/
theorem seq_sensorFrame (seq : UInt16) (value faultId : UInt32) :
    (sensorFrame seq value faultId).seq = seq :=
  joinU16 seq

/-- The host reads back what a FAULT message announces. -/
theorem fromPayload_faultFrame (faultId : UInt32) (kind : UInt8) (atSeq : UInt16)
    (idx : UInt64) (now : Instant) :
    GroundTruth.fromPayload
        ((faultFrame faultId kind atSeq).payload.toList.take (faultFrame faultId kind atSeq).len)
        idx now =
      some ⟨faultId, kind, atSeq, idx, now⟩ := by
  have hbytes : (faultFrame faultId kind atSeq).payload.toList.take
      (faultFrame faultId kind atSeq).len = faultPayload faultId kind atSeq :=
    FixedArray.take_padded 0 (faultPayload faultId kind atSeq)
      (by simp [faultPayloadLen, maxPayload])
  rw [hbytes, fromPayload_faultPayload]

/-! ### The slots of a campaign -/

namespace SharedCfg

/-- The slots of a campaign with prescribed kinds: `run_next` with the kind that it draws
replaced by the prescribed one. -/
def emitSlots : SharedCfg → List UInt8 → SharedCfg × List Action
  | c, [] => (c, [])
  | c, kind :: kinds =>
      let slot := c.pick.2.emitSlot kind
      let rest := emitSlots slot.1 kinds
      (rest.1, slot.2 ++ rest.2)

/-- For the kinds that are drawn, these are the calls of `run_next`. -/
theorem calls_eq_emitSlots {c : SharedCfg} {i f : ℕ} (k : ℕ) (h : c.Counts i f)
    (hk : i + k ≤ c.packets.toNat) :
    c.emitSlots ((c.calls k).2.map Call.kind) =
      ((c.calls k).1, (c.calls k).2.flatMap Call.actions) := by
  induction k generalizing c i f with
  | zero => rfl
  | succ k ih =>
      obtain ⟨-, hcounts, hpackets⟩ := counts_runNext h (by omega)
      have hrest := ih hcounts (by rw [hpackets]; omega)
      have hrun := runNext_of_lt (c := c) (by rw [h.sent]; omega)
      simp only [calls, List.map_cons, List.flatMap_cons, emitSlots, Call.kind]
      rw [hrun] at hrest ⊢
      rw [hrest]

variable (c : SharedCfg)

/-- For a DROP the host gets the announcement only. -/
theorem hostFrames_drop :
    ∃ fid, hostFrames (c.emitSlot faultDrop).2 = [faultFrame fid faultDrop c.seq] :=
  ⟨_, rfl⟩

/-- For a REPLAY it gets the frame twice, and the announcement. -/
theorem hostFrames_replay :
    ∃ v fid, hostFrames (c.emitSlot faultReplay).2 =
      [sensorFrame c.seq v 0, sensorFrame c.seq v 0, faultFrame fid faultReplay c.seq] :=
  ⟨_, _, rfl⟩

/-- A clean slot is one sensor frame. -/
theorem hostFrames_clean {kind : UInt8} (h : ¬ Injected kind) :
    ∃ v, hostFrames (c.emitSlot kind).2 = [sensorFrame c.seq v 0] := by
  rw [emitSlot, emitKind_clean h]
  exact ⟨_, rfl⟩

end SharedCfg

/-- The kinds of a campaign without other faults than drops and replays. -/
def SequenceKind (kind : UInt8) : Prop :=
  kind = faultDrop ∨ kind = faultReplay ∨ ¬ Injected kind

instance (kind : UInt8) : Decidable (SequenceKind kind) :=
  inferInstanceAs (Decidable (_ ∨ _))

/-- All the injector sends in a campaign whose slots have the given kinds, END included. -/
def campaignActions (cfg : CampaignConfig) (kinds : List UInt8) : List Action :=
  let r := (SharedCfg.ofConfig cfg).emitSlots kinds
  r.2 ++ [.send (.campaignEnd r.1.packets r.1.faultId)]

/-! ### The host notices the slots -/

/-- The device under test before slot `i`, when `last` is the last slot it has heard. -/
structure Tracks (d : Dut) (last : Option ℕ) (i : ℕ) : Prop where
  junkRun : d.junkRun = 0
  lastSeq : d.lastSeq = last.map UInt16.ofNat
  lastTime : d.lastTime.isSome = last.isSome
  lt : ∀ s ∈ last, s < i

section Host

variable {R : Instant → Prop} {last : Option ℕ} {i : ℕ} {d : Dut} {clock : Clock}
  {value faultId : UInt32}

/-- A slot that is not heard leaves the device under test as it is. -/
theorem Tracks.succ (h : Tracks d last i) : Tracks d last (i + 1) :=
  { h with lt := fun s hs => (h.lt s hs).trans (Nat.lt_succ_self i) }

/-- **The first frame of a slot.** -/
theorem Tracks.process_first (h : Tracks d last i) (hi : i + 1 < 2 ^ 16)
    (hR : ∀ j, R (clock j)) :
    ∃ first, (d.process clock (sensorFrame (UInt16.ofNat i) value faultId)).detections =
        d.detections ++ first ∧
      FirstOf R last i first ∧
      Tracks (d.process clock (sensorFrame (UInt16.ofNat i) value faultId)) (some i) (i + 1) := by
  rw [Dut.process_sensor h.junkRun (heard_sensorFrame _ _ _), seq_sensorFrame]
  refine ⟨_, rfl, ?_, ⟨h.junkRun, rfl, rfl, by simp⟩⟩
  cases last with
  | none => simp [FirstOf, Dut.checkSeq, h.lastSeq]
  | some s =>
      have hs : s < i := h.lt s rfl
      obtain ⟨lt, hlt⟩ := Option.isSome_iff_exists.mp h.lastTime
      have hnat : ∀ n, n ≤ i → (UInt16.ofNat n).toNat = n :=
        fun n hn => UInt16.toNat_ofNat_of_lt' (show n < 2 ^ 16 by omega)
      have hsucc : (UInt16.ofNat s + 1).toNat = s + 1 := by
        rw [← hnat (s + 1) (by omega), UInt16.ofNat_add]
        rfl
      simp only [FirstOf, Dut.checkSeq, h.lastSeq, hlt, Option.map_some,
        ← UInt16.toNat_inj, UInt16.lt_iff_toNat_lt, hnat i le_rfl, hnat s (by omega), hsucc]
      split
      · next hsi =>
        rw [if_pos hsi.symm]
        split
        · exact Or.inr ⟨_, rfl, rfl, rfl, hR 2⟩
        · exact Or.inl rfl
      · next hsi =>
        rw [if_neg (fun h => hsi h.symm), if_neg (by omega), if_pos (by omega)]
        exact ⟨_, rfl, rfl, rfl, hR 2⟩

/-- **A second copy of the frame of a slot** is a replay. -/
theorem Tracks.process_again (h : Tracks d (some i) (i + 1)) (hR : ∀ j, R (clock j)) :
    ∃ e, (d.process clock (sensorFrame (UInt16.ofNat i) value faultId)).detections =
        d.detections ++ [e] ∧
      Seen R .replay i e ∧
      Tracks (d.process clock (sensorFrame (UInt16.ofNat i) value faultId)) (some i) (i + 1) := by
  obtain ⟨lt, hlt⟩ := Option.isSome_iff_exists.mp h.lastTime
  have hne : UInt16.ofNat i ≠ UInt16.ofNat i + 1 := by simp
  have hcheck : d.checkSeq (UInt16.ofNat i) (clock 1) = some .replay := by
    simp only [Dut.checkSeq, h.lastSeq, hlt, Option.map_some]
    rw [if_neg hne, if_pos trivial]
  rw [Dut.process_sensor h.junkRun (heard_sensorFrame _ _ _), seq_sensorFrame, hcheck]
  exact ⟨_, rfl, ⟨rfl, rfl, hR 2⟩, ⟨h.junkRun, rfl, rfl, h.lt⟩⟩

variable {truths : List GroundTruth} {fs : List (Clock × DuFrame)}

/-- The loop hands a sensor frame to the device under test. -/
theorem receive_sensor (seq : UInt16) :
    receive d truths ((clock, sensorFrame seq value faultId) :: fs) =
      receive (d.process clock (sensorFrame seq value faultId)) truths fs := rfl

/-- It makes a truth of an announcement. -/
theorem receive_fault (kind : UInt8) (seq : UInt16) :
    receive d truths ((clock, faultFrame faultId kind seq) :: fs) =
      receive d (truths ++ [⟨faultId, kind, seq, d.frameIdx, clock 0⟩]) fs := by
  have harm : dispatch (faultFrame faultId kind seq).kind = .truth := rfl
  rw [receive, harm]
  simp only [fromPayload_faultFrame]

/-- It stops at END, whatever follows. -/
theorem receive_end (packets : UInt16) (faults : UInt32) :
    receive d truths ((clock, endFrame packets faults) :: fs) = (d, truths) := rfl

/-- **One slot**: receiving its frames brings the device under test to the next slot, and
adds what `Noticed` allows for this one. -/
theorem receive_slot (truths : List GroundTruth) {kind : UInt8} (hkind : SequenceKind kind)
    {c : SharedCfg} (hseq : c.seq = UInt16.ofNat i) (hi : i + 1 < 2 ^ 16) (hd : Tracks d last i)
    {tail : List DuFrame} (hframes : fs.map Prod.snd = hostFrames (c.emitSlot kind).2 ++ tail)
    (hR : ∀ x ∈ fs, ∀ j, R (x.1 j)) :
    ∃ d' last' ds ts fs', receive d truths fs = receive d' (truths ++ ts) fs' ∧
      d'.detections = d.detections ++ ds ∧ Tracks d' last' (i + 1) ∧
      fs'.map Prod.snd = tail ∧ (∀ x ∈ fs', ∀ j, R (x.1 j)) ∧
      ∀ kinds ds' ts', Noticed R last' (i + 1) kinds ds' ts' →
        Noticed R last i (kind :: kinds) (ds ++ ds') (ts ++ ts') := by
  rcases hkind with rfl | rfl | hk
  · obtain ⟨fid, hslot⟩ := c.hostFrames_drop
    rw [hslot, hseq] at hframes
    obtain ⟨⟨clock, f⟩, fs, rfl, rfl, htail⟩ := List.map_eq_cons_iff.mp hframes
    refine ⟨d, last, [], _, fs, receive_fault _ _, (List.append_nil _).symm, hd.succ, htail,
      fun x hx => hR x (List.mem_cons_of_mem _ hx), fun kinds ds' ts' hrest => ?_⟩
    exact .drop ⟨rfl, rfl, hR _ (List.mem_cons_self ..) 0⟩ hrest
  · obtain ⟨v, fid, hslot⟩ := c.hostFrames_replay
    rw [hslot, hseq] at hframes
    obtain ⟨⟨clock₁, f₁⟩, fs₁, rfl, rfl, htail₁⟩ := List.map_eq_cons_iff.mp hframes
    obtain ⟨⟨clock₂, f₂⟩, fs₂, rfl, rfl, htail₂⟩ := List.map_eq_cons_iff.mp htail₁
    obtain ⟨⟨clock₃, f₃⟩, fs₃, rfl, rfl, htail⟩ := List.map_eq_cons_iff.mp htail₂
    obtain ⟨first, hfirst, hnotice, htracks⟩ :=
      hd.process_first hi (hR _ (List.mem_cons_self ..))
    obtain ⟨e, hagain, hseen, htracks⟩ :=
      htracks.process_again (hR _ (List.mem_cons_of_mem _ (List.mem_cons_self ..)))
    rw [receive_sensor, receive_sensor, receive_fault]
    refine ⟨_, _, first ++ [e], _, fs₃, rfl, ?_, htracks, htail, fun x hx => hR x (by simp [hx]),
      fun kinds ds' ts' hrest => ?_⟩
    · rw [hagain, hfirst, List.append_assoc]
    · have htime := hR (clock₃, faultFrame fid faultReplay (UInt16.ofNat i)) (by simp) 0
      rw [List.append_assoc]
      exact .replay hnotice hseen ⟨rfl, rfl, htime⟩ hrest
  · obtain ⟨v, hslot⟩ := c.hostFrames_clean hk
    rw [hslot, hseq] at hframes
    obtain ⟨⟨clock, f⟩, fs, rfl, rfl, htail⟩ := List.map_eq_cons_iff.mp hframes
    obtain ⟨first, hfirst, hnotice, htracks⟩ :=
      hd.process_first hi (hR _ (List.mem_cons_self ..))
    rw [receive_sensor]
    refine ⟨_, _, first, [], fs, by rw [List.append_nil], hfirst, htracks, htail,
      fun x hx => hR x (List.mem_cons_of_mem _ hx),
      fun kinds ds' ts' hrest => .clean hk hnotice hrest⟩

/-- **The host notices the slots**: receiving the frames of a campaign adds what `Noticed`
allows for its slots, and nothing else. -/
theorem receive_slots (truths : List GroundTruth) {kinds : List UInt8}
    (hkinds : ∀ k ∈ kinds, SequenceKind k) {c : SharedCfg} (hseq : c.seq = UInt16.ofNat i)
    (hi : i + kinds.length < 2 ^ 16)
    (hd : Tracks d last i) {packets : UInt16} {faults : UInt32}
    (hframes : fs.map Prod.snd = hostFrames (c.emitSlots kinds).2 ++ [endFrame packets faults])
    (hR : ∀ x ∈ fs, ∀ j, R (x.1 j)) :
    ∃ ds ts, (receive d truths fs).1.detections = d.detections ++ ds ∧
      (receive d truths fs).2 = truths ++ ts ∧ Noticed R last i kinds ds ts := by
  induction kinds generalizing c i d last truths fs with
  | nil =>
      obtain ⟨⟨clock, f⟩, rfl, rfl⟩ := List.map_eq_singleton_iff.mp hframes
      exact ⟨[], [], by rw [receive_end, List.append_nil], by rw [receive_end, List.append_nil],
        .nil⟩
  | cons kind kinds ih =>
      obtain ⟨g, hpick⟩ := c.pick_state
      have hpickseq : c.pick.2.seq = UInt16.ofNat i := by rw [hpick, ← hseq]
      have hnext : (c.pick.2.emitSlot kind).1.seq = UInt16.ofNat (i + 1) := by
        obtain ⟨g', hstate⟩ := c.pick.2.emitSlot_state kind
        rw [hstate, UInt16.ofNat_add, ← hpickseq]
        rfl
      rw [List.length_cons] at hi
      rw [SharedCfg.emitSlots, hostFrames_append, List.append_assoc] at hframes
      obtain ⟨d', last', ds, ts, fs', hslot, hdets, htracks, htail, hR', hnoticed⟩ :=
        receive_slot truths (hkinds kind (List.mem_cons_self ..)) hpickseq (by omega) hd hframes hR
      obtain ⟨ds', ts', hdets', htruths', hrest⟩ :=
        ih (truths ++ ts) (fun k hk => hkinds k (List.mem_cons_of_mem _ hk)) hnext (by omega)
          htracks htail hR'
      rw [hslot]
      refine ⟨ds ++ ds', ts ++ ts', ?_, ?_, hnoticed _ _ _ hrest⟩
      · rw [hdets', hdets, List.append_assoc]
      · rw [htruths', List.append_assoc]

end Host

/-! ### What the scorer makes of them -/

/-- The readings of the clock lie less than `2 ^ 63` milliseconds apart, as they do when the
frames are on time, and when they are late by less than that. -/
def ShortRun (arrivals : List (Clock × DuFrame)) : Prop :=
  ∀ x ∈ arrivals, ∀ y ∈ arrivals, ∀ j k, (x.1 j).millisSince (y.1 k) < 2 ^ 63

/-- Without physical faults, nothing is missed iff every truth is paired. -/
theorem missed_eq_zero_iff_isSome (opts : Opts) {ds : List Detection} {ts : List GroundTruth}
    (hlen : ts.length < 2 ^ 16) (hkinds : ∀ t ∈ ts, (expectedDets t.kind).isEmpty = false) :
    (score opts ds ts).missed = 0 ↔
      ∀ o ∈ pairing (suits opts.cadenceMs) ds 0 ts, o.isSome = true := by
  have hscored : ∀ r ∈ matchLoop opts.cadenceMs ds 0 ts,
      (expectedDets r.1.kind).isEmpty = false := by
    intro r hr
    have hmem := List.mem_map_of_mem (f := Prod.fst) hr
    rw [matchLoop_fst] at hmem
    exact hkinds r.1 hmem
  rw [← UInt16.toNat_inj, missed_score opts hlen, UInt16.toNat_zero, List.countP_eq_zero,
    ← matchLoop_pos, List.forall_mem_map]
  refine forall₂_congr fun r hr => ?_
  rw [hscored r hr]
  cases r.2 <;> simp

/-- **The bench is calibrated for isolated drops.** In a campaign whose slots are clean,
DROP or REPLAY, all the frames of which are received and correctly decoded, no injected
fault is missed iff every DROP slot has a slot before it and one that is no DROP right
behind it. -/
theorem missed_eq_zero_iff (opts : Opts) (kinds : List UInt8)
    (arrivals : List (Clock × DuFrame)) (hcad : 0 < opts.cadenceMs)
    (hlen : kinds.length = opts.packets.toNat) (hkinds : ∀ k ∈ kinds, SequenceKind k)
    (harrive : arrivals.map Prod.snd = hostFrames (campaignActions opts.config kinds))
    (hspan : ShortRun arrivals) :
    (run opts arrivals).missed = 0 ↔ DropsIsolated kinds := by
  let R : Instant → Prop := fun a => ∃ x ∈ arrivals, ∃ j, x.1 j = a
  have hR : ∀ x ∈ arrivals, ∀ j, R (x.1 j) := fun x hx j => ⟨x, hx, j, rfl⟩
  have hshort : ∀ a b, R a → R b → a.millisSince b < 2 ^ 63 := by
    rintro a b ⟨x, hx, j, rfl⟩ ⟨y, hy, k, rfl⟩
    exact hspan x hx y hy j k
  have hbound : kinds.length < 2 ^ 16 := by
    rw [hlen]
    exact opts.packets.toNat_lt
  rw [campaignActions, hostFrames_append] at harrive
  have htracks : Tracks (.new opts.cadenceMs) none 0 := ⟨rfl, rfl, rfl, by simp⟩
  obtain ⟨ds, ts, hdets, htruths, hnoticed⟩ :=
    receive_slots [] hkinds (c := .ofConfig opts.config) (i := 0) rfl (by omega) htracks
      harrive hR
  have hrun : run opts arrivals = score opts ds ts := by
    simp only [run, hdets, htruths]
    rfl
  have hscored : ∀ t ∈ ts, (expectedDets t.kind).isEmpty = false := by
    intro t ht
    rcases hnoticed.kind_of_mem t ht with h | h <;> rw [h] <;> decide
  rw [hrun, missed_eq_zero_iff_isSome opts (hnoticed.length_le.trans_lt hbound) hscored]
  constructor
  · intro hall
    refine hnoticed.isolated_of_le ?_
    rw [← hnoticed.countP_drop]
    refine countP_le_of_isSome (c := 0) (fun t d hsuits ht => ?_) hall
    have hkind := (plausible_of_suits hsuits).1
    rw [of_decide_eq_true ht] at hkind
    simpa [expectedDets, faultDrop, faultBitflip, faultByte] using hkind
  · intro hiso
    exact isSome_of_served
      (hnoticed.served hcad hshort (dropsIsolated_iff.mp hiso) (.unheard 0) (by simp)) rfl

/-- No drop or replay of a campaign with the given kinds is missed, whenever its frames
arrive. -/
def Calibrated (opts : Opts) (kinds : List UInt8) : Prop :=
  ∀ arrivals : List (Clock × DuFrame),
    arrivals.map Prod.snd = hostFrames (campaignActions opts.config kinds) →
    ShortRun arrivals → (run opts arrivals).missed = 0

/-- The options of a short simulated campaign. -/
def shortCampaign (packets : UInt16) : Opts where
  simulated := true
  seed := 1
  packets := packets
  cadenceMs := 5
  profile := "fuzz"
  quiet := true

/-- All frames of a campaign arrive at one instant. -/
def atOnce (opts : Opts) (kinds : List UInt8) : List (Clock × DuFrame) :=
  (hostFrames (campaignActions opts.config kinds)).map fun f => (fun _ => ⟨0⟩, f)

/-- The frames that arrive at once are those of the campaign. -/
theorem map_snd_atOnce (opts : Opts) (kinds : List UInt8) :
    (atOnce opts kinds).map Prod.snd = hostFrames (campaignActions opts.config kinds) := by
  simp [atOnce, Function.comp_def]

/-- When all readings of the clock are the same, the run is short. -/
theorem shortRun_atOnce (opts : Opts) (kinds : List UInt8) : ShortRun (atOnce opts kinds) := by
  intro x hx y hy j k
  obtain ⟨f, -, rfl⟩ := List.mem_map.mp hx
  obtain ⟨g, -, rfl⟩ := List.mem_map.mp hy
  simp [Instant.millisSince]

/-- A drop between two clean slots. -/
theorem missed_of_single_drop :
    (run (shortCampaign 3) (atOnce (shortCampaign 3) [faultNone, faultDrop, faultNone])).missed =
      0 ↔ DropsIsolated [faultNone, faultDrop, faultNone] :=
  missed_eq_zero_iff (shortCampaign 3) [faultNone, faultDrop, faultNone] _ (by decide) rfl
    (by decide +kernel) (map_snd_atOnce _ _) (shortRun_atOnce _ _)

/-- A drop in the first slot is missed, so is one in the last slot, and so is one of two
drops in a row. -/
theorem drops_not_calibrated :
    ¬ Calibrated (shortCampaign 2) [faultDrop, faultNone] ∧
    ¬ Calibrated (shortCampaign 2) [faultNone, faultDrop] ∧
    ¬ Calibrated (shortCampaign 4) [faultNone, faultDrop, faultDrop, faultNone] := by
  refine ⟨fun h => ?_, fun h => ?_, fun h => ?_⟩
  · exact absurd (h _ (map_snd_atOnce _ _) (shortRun_atOnce _ _)) (by decide +kernel)
  · exact absurd (h _ (map_snd_atOnce _ _) (shortRun_atOnce _ _)) (by decide +kernel)
  · exact absurd (h _ (map_snd_atOnce _ _) (shortRun_atOnce _ _)) (by decide +kernel)

end FaultForge
