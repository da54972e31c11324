import FaultForge.Bursts
import FaultForge.Misread
import FaultForge.Overflow
import FaultForge.Pipeline
import FaultForge.Session

/-!
# Campaigns on a Flawless Link

What the host makes of a link on which nothing goes wrong: the bytes of encoded frames arrive as
they were sent, cut into chunks in any way. The parser reports two outcomes for every frame, one
byte early and on the checksum (`FaultForge.Misread`), so the device under test is given a
verdict and a garbage marker for every frame. It records a CRC failure for every frame whose
verdict is bad, and a burst for the checksum of the frame before, and a ground truth is collected
only from a FAULT frame that happens to pass.

END ends the campaign all the same, since the loop looks at the kind byte only.

## Main results

* `flawless_link`: the alarms and the truths of a campaign on a flawless link.
* `clean_campaign`: a campaign without faults is full of alarms.
-/

namespace FaultForge

/-! ### What the parser task delivers -/

/-- The frames that the host is given for an encoded frame. -/
def Frame.images (f : Frame) : List DuFrame :=
  [.ofDecoded f.verdict, .ofDecoded .garbage]

/-- The parser task on a flawless link. -/
theorem parseStream_frames {fs : List Frame} (h : ∀ f ∈ fs, f.Apart) {chunks : List (List UInt8)}
    (hcut : chunks.flatten = fs.flatMap Frame.bytes) :
    ∃ p, parseStream .new chunks = some (p, fs.flatMap Frame.images) := by
  obtain ⟨p, outs, hrun, -, houts⟩ := Frame.run_frames h
  refine ⟨p, ?_⟩
  rw [Pipe.parseStream_eq, hcut, hrun, Option.map_some, Pipe.images, houts, List.map_flatMap]
  rfl

/-- The verdict keeps the kind of the frame, good or bad. -/
theorem kind_verdict (f : Frame) : (DuFrame.ofDecoded f.verdict).kind = f.kind := by
  by_cases h : f.Passes
  · rw [Frame.verdict_of_passes h]
    rfl
  · rw [Frame.verdict_of_not_passes h]
    rfl

/-- The verdict on a frame is not garbage, even if it is bad. -/
theorem garbage_verdict (f : Frame) : (DuFrame.ofDecoded f.verdict).garbage = false := by
  by_cases h : f.Passes
  · rw [Frame.verdict_of_passes h]
    rfl
  · rw [Frame.verdict_of_not_passes h]
    rfl

/-- It is bad iff the frame does not pass. -/
theorem badCrc_verdict (f : Frame) : (DuFrame.ofDecoded f.verdict).badCrc = !decide f.Passes := by
  by_cases h : f.Passes
  · rw [Frame.verdict_of_passes h, decide_eq_true h]
    rfl
  · rw [Frame.verdict_of_not_passes h, decide_eq_false h]
    rfl

/-! ### One frame -/

namespace Frame

/-- The device under test is handed the frame, unless END comes first. -/
def isHanded (f : Frame) : Bool :=
  f.kind ≠ kFault

/-- The frame is recorded as a CRC failure. -/
def alarms (f : Frame) : Bool :=
  f.isHanded && !decide f.Passes

/-- A ground truth is read from the frame. -/
def admits (f : Frame) : Bool :=
  decide (f.kind = kFault) && decide f.Passes && decide (faultPayloadLen ≤ f.payload.length)

end Frame

/-- A count that a condition adds to. -/
def oneIf (b : Bool) : ℕ :=
  if b then 1 else 0

variable {d : Dut} {truths : List GroundTruth} {rest : List (Clock × DuFrame)}

/-- The loop of the campaign hands a garbage marker to the device under test. -/
theorem receive_garbage (clock : Clock) :
    receive d truths ((clock, .ofDecoded .garbage) :: rest) =
      receive (d.process clock (.ofDecoded .garbage)) truths rest := rfl

/-- What a frame leaves behind: what it has added to the counts, and the garbage of its
checksum. -/
structure LeavesBehind (d : Dut) (f : Frame) (d' : Dut) (added : List GroundTruth) : Prop where
  armed : d'.Armed
  junkRun : d'.junkRun = (if f.isHanded then 0 else d.junkRun) + 1
  crc : countKind .crc d'.detections = countKind .crc d.detections + oneIf f.alarms
  burst : countKind .burst d'.detections =
    countKind .burst d.detections + oneIf (f.isHanded && decide (1 ≤ d.junkRun))
  truths : added.length = oneIf f.admits

/-- The garbage marker of a checksum changes no count. -/
theorem LeavesBehind.of_garbage {d₁ : Dut} {f : Frame} {added : List GroundTruth} (clock : Clock)
    (hjunk : d₁.junkRun = if f.isHanded then 0 else d.junkRun)
    (hcrc : countKind .crc d₁.detections = countKind .crc d.detections + oneIf f.alarms)
    (hburst : countKind .burst d₁.detections =
      countKind .burst d.detections + oneIf (f.isHanded && decide (1 ≤ d.junkRun)))
    (htruths : added.length = oneIf f.admits) :
    LeavesBehind d f (d₁.process clock (.ofDecoded .garbage)) added := by
  have hdets : (d₁.process clock (.ofDecoded .garbage)).detections = d₁.detections := rfl
  have hrun : (d₁.process clock (.ofDecoded .garbage)).junkRun = d₁.junkRun + 1 := rfl
  exact ⟨Dut.Armed.process clock _, by rw [hrun, hjunk], by rw [hdets, hcrc], by rw [hdets, hburst],
    htruths⟩

/-- A FAULT frame is read as a ground truth iff it is admitted. -/
theorem isSome_fromPayload_verdict {f : Frame} (hfault : f.kind = kFault) (frameIdx : UInt64)
    (now : Instant) :
    (GroundTruth.fromPayload ((DuFrame.ofDecoded f.verdict).payload.toList.take
      (DuFrame.ofDecoded f.verdict).len) frameIdx now).isSome = f.admits := by
  have hlen : (DuFrame.ofDecoded f.verdict).len = if f.Passes then f.payload.length else 0 := by
    split
    · next h => rw [Frame.verdict_of_passes h]; rfl
    · next h => rw [Frame.verdict_of_not_passes h]; rfl
  rw [isSome_fromPayload, hlen, Frame.admits, decide_eq_true hfault, Bool.true_and]
  split
  · next h => rw [decide_eq_true h, Bool.true_and]
  · next h => rw [decide_eq_false h]; rfl

/-- **One frame** before END, with the garbage behind it. -/
theorem receive_frame (h : d.Armed) {f : Frame} (hend : f.kind ≠ kEnd) (clock clock' : Clock) :
    ∃ d' added, receive d truths ((clock, .ofDecoded f.verdict) ::
        (clock', .ofDecoded .garbage) :: rest) = receive d' (truths ++ added) rest ∧
      LeavesBehind d f d' added := by
  have hkind := kind_verdict f
  by_cases hfault : f.kind = kFault
  · have harm : dispatch (DuFrame.ofDecoded f.verdict).kind = .truth :=
      dispatch_eq_truth.mpr (hkind.trans hfault)
    have hhanded : f.isHanded = false := by simp [Frame.isHanded, hfault]
    have hleaves : ∀ added : List GroundTruth, added.length = oneIf f.admits →
        LeavesBehind d f (d.process clock' (.ofDecoded .garbage)) added := fun added hadded =>
      .of_garbage clock' (by simp [hhanded]) (by simp [Frame.alarms, hhanded, oneIf])
        (by simp [hhanded, oneIf]) hadded
    have hread := isSome_fromPayload_verdict hfault d.frameIdx (clock 0)
    rw [receive, harm]
    simp only
    generalize GroundTruth.fromPayload _ d.frameIdx (clock 0) = read at hread ⊢
    cases read with
    | none => exact ⟨_, [], by rw [receive_garbage, List.append_nil],
        hleaves [] (by rw [← hread]; rfl)⟩
    | some gt => exact ⟨_, [gt], receive_garbage clock', hleaves [gt] (by rw [← hread]; rfl)⟩
  · have harm : dispatch (DuFrame.ofDecoded f.verdict).kind = .process :=
      dispatch_eq_process.mpr (by rw [hkind]; exact ⟨hfault, hend⟩)
    have hhanded : f.isHanded = true := by simp [Frame.isHanded, hfault]
    have hgarbage := garbage_verdict f
    refine ⟨_, [], by rw [receive, harm, receive_garbage, List.append_nil],
      .of_garbage clock' ?_ ?_ ?_ (by simp [Frame.admits, hfault, oneIf])⟩
    · rw [Dut.process_eq]
      simp [hgarbage, hhanded]
    · rw [Dut.countKind_crc_process, badCrc_verdict, hgarbage, Frame.alarms, hhanded]
      simp [oneIf]
    · rw [h.countKind_process, hgarbage, hhanded]
      simp [oneIf]

/-! ### The campaign -/

/-- The frames of a campaign up to its END. -/
def beforeEnd (fs : List Frame) : List Frame :=
  fs.takeWhile fun f => f.kind ≠ kEnd

/-- **All frames behind another one**: the garbage of its checksum makes each of them close a
burst. -/
theorem receive_frames {fs : List Frame} (h : d.Armed) (hjunk : 1 ≤ d.junkRun)
    (hlen : d.junkRun.toNat + fs.length < 2 ^ 32) {arrivals : List (Clock × DuFrame)}
    (harrive : arrivals.map Prod.snd = fs.flatMap Frame.images) :
    countKind .crc (receive d truths arrivals).1.detections =
        countKind .crc d.detections + (beforeEnd fs).countP Frame.alarms ∧
      countKind .burst (receive d truths arrivals).1.detections =
        countKind .burst d.detections + (beforeEnd fs).countP Frame.isHanded ∧
      (receive d truths arrivals).2.length =
        truths.length + (beforeEnd fs).countP Frame.admits := by
  induction fs generalizing d truths arrivals with
  | nil =>
      obtain rfl := List.map_eq_nil_iff.mp harrive
      exact ⟨rfl, rfl, rfl⟩
  | cons f fs ih =>
      rw [List.flatMap_cons] at harrive
      obtain ⟨⟨clock, v⟩, fs₁, rfl, rfl, htail⟩ := List.map_eq_cons_iff.mp harrive
      obtain ⟨⟨clock', g⟩, rest, rfl, rfl, hrest⟩ := List.map_eq_cons_iff.mp htail
      by_cases hend : f.kind = kEnd
      · have harm : dispatch (DuFrame.ofDecoded f.verdict).kind = .stop :=
          dispatch_eq_stop.mpr ((kind_verdict f).trans hend)
        rw [receive, harm, beforeEnd, List.takeWhile_cons_of_neg (by simpa using hend)]
        exact ⟨rfl, rfl, rfl⟩
      · obtain ⟨d', added, hreceive, hleaves⟩ :=
          receive_frame h hend clock clock'
        have hnat : d'.junkRun.toNat = (if f.isHanded then 0 else d.junkRun.toNat) + 1 := by
          rw [hleaves.junkRun, UInt32.toNat_add]
          rw [List.length_cons] at hlen
          split
          · rfl
          · exact Nat.mod_eq_of_lt (by simp; omega)
        have hjunk' : 1 ≤ d'.junkRun := by
          rw [UInt32.le_iff_toNat_le, hnat]
          exact Nat.le_add_left ..
        have hlen' : d'.junkRun.toNat + fs.length < 2 ^ 32 := by
          rw [hnat]
          rw [List.length_cons] at hlen
          split <;> omega
        obtain ⟨hcrc, hburst, htruths⟩ :=
          @ih d' (truths ++ added) hleaves.armed hjunk' hlen' _ hrest
        have hbefore : beforeEnd (f :: fs) = f :: beforeEnd fs :=
          List.takeWhile_cons_of_pos (by simpa using hend)
        rw [hreceive, hcrc, hburst, htruths, hleaves.crc, hleaves.burst, List.length_append,
          hleaves.truths, hbefore, List.countP_cons, List.countP_cons, List.countP_cons,
          decide_eq_true hjunk, Bool.and_true]
        simp only [oneIf]
        refine ⟨by omega, by omega, by omega⟩

/-- **A campaign on a flawless link.** Let fewer than `2 ^ 32` encoded frames arrive, cut into
chunks in any way, of which no checksum is a sync byte. The frames before END that are no FAULT
and whose last byte is not their checksum are recorded as CRC failures, all frames before END that
are no FAULT, except for the first of all, close a burst, and ground truths come only from FAULT
frames that pass. -/
theorem flawless_link (cadenceMs : UInt16) {fs : List Frame} (hapart : ∀ f ∈ fs, f.Apart)
    (hlen : fs.length < 2 ^ 32) {chunks : List (List UInt8)}
    (hcut : chunks.flatten = fs.flatMap Frame.bytes) :
    ∃ p frames, parseStream .new chunks = some (p, frames) ∧
      ∀ arrivals : List (Clock × DuFrame), arrivals.map Prod.snd = frames →
        countKind .crc (receive (.new cadenceMs) [] arrivals).1.detections =
            (beforeEnd fs).countP Frame.alarms ∧
          countKind .burst (receive (.new cadenceMs) [] arrivals).1.detections =
            (beforeEnd fs).tail.countP Frame.isHanded ∧
          (receive (.new cadenceMs) [] arrivals).2.length =
            (beforeEnd fs).countP Frame.admits := by
  obtain ⟨p, hparse⟩ := parseStream_frames hapart hcut
  refine ⟨p, _, hparse, fun arrivals harrive => ?_⟩
  cases fs with
  | nil =>
      obtain rfl := List.map_eq_nil_iff.mp harrive
      exact ⟨rfl, rfl, rfl⟩
  | cons f fs =>
      rw [List.flatMap_cons] at harrive
      obtain ⟨⟨clock, v⟩, fs₁, rfl, rfl, htail⟩ := List.map_eq_cons_iff.mp harrive
      obtain ⟨⟨clock', g⟩, rest, rfl, rfl, hrest⟩ := List.map_eq_cons_iff.mp htail
      by_cases hend : f.kind = kEnd
      · have harm : dispatch (DuFrame.ofDecoded f.verdict).kind = .stop :=
          dispatch_eq_stop.mpr ((kind_verdict f).trans hend)
        rw [receive, harm, beforeEnd, List.takeWhile_cons_of_neg (by simpa using hend)]
        exact ⟨rfl, rfl, rfl⟩
      · -- nothing is pending at the first frame, so it closes no burst
        obtain ⟨d', added, hreceive, hleaves⟩ :=
          receive_frame (Dut.armed_new cadenceMs) hend clock clock'
        have hone : d'.junkRun = 1 := by
          rw [hleaves.junkRun]
          split <;> rfl
        rw [List.length_cons] at hlen
        obtain ⟨hcrc, hburst, htruths⟩ := @receive_frames d' ([] ++ added) _ hleaves.armed
          (by rw [hone]; decide) (by rw [hone]; exact (Nat.add_comm ..).trans_lt hlen) _ hrest
        have hbefore : beforeEnd (f :: fs) = f :: beforeEnd fs :=
          List.takeWhile_cons_of_pos (by simpa using hend)
        have hfirst : oneIf (f.isHanded && decide (1 ≤ (Dut.new cadenceMs).junkRun)) = 0 := by
          simp [Dut.new, oneIf]
        rw [hreceive, hcrc, hburst, htruths, hleaves.crc, hleaves.burst, hfirst, List.nil_append,
          hleaves.truths, hbefore, List.countP_cons, List.countP_cons, List.tail_cons]
        simp only [oneIf, Dut.new, countKind, List.countP_nil]
        refine ⟨by omega, by omega, by omega⟩

/-- A sensor frame, the FAULT of its slot, another sensor frame, and END. -/
theorem four_frames_on_flawless_link :
    let fs : List Frame :=
      [⟨kSensor, sensorPayload 0 100 1, sensorPayload_fits _ _ _⟩,
        ⟨kFault, faultPayload 1 faultByte 0, faultPayload_fits _ _ _⟩,
        ⟨kSensor, sensorPayload 1 100 0, sensorPayload_fits _ _ _⟩,
        ⟨kEnd, endPayload 2 1, endPayload_fits _ _⟩]
    ∃ p frames, parseStream .new [fs.flatMap Frame.bytes] = some (p, frames) ∧
      ∀ arrivals : List (Clock × DuFrame), arrivals.map Prod.snd = frames →
        countKind .crc (receive (.new 5) [] arrivals).1.detections =
            (beforeEnd fs).countP Frame.alarms ∧
          countKind .burst (receive (.new 5) [] arrivals).1.detections =
            (beforeEnd fs).tail.countP Frame.isHanded ∧
          (receive (.new 5) [] arrivals).2.length = (beforeEnd fs).countP Frame.admits :=
  flawless_link 5 (by decide +kernel) (by decide) (List.append_nil _)

/-! ### A campaign without faults -/

/-- The frame that a message is sent as; junk is no frame. -/
def Msg.sentFrame : Msg → Option Frame
  | pong => some ⟨kPong, [], Nat.zero_le _⟩
  | sensor seq value faultId =>
      some ⟨kSensor, sensorPayload seq value faultId, sensorPayload_fits seq value faultId⟩
  | fault faultId kind atSeq =>
      some ⟨kFault, faultPayload faultId kind atSeq, faultPayload_fits faultId kind atSeq⟩
  | campaignEnd packets faults =>
      some ⟨kEnd, endPayload packets faults, endPayload_fits packets faults⟩
  | junk _ => none

/-- The frames that the injector sends. -/
def framesOf (acts : List Action) : List Frame :=
  acts.filterMap fun
    | .send m => m.sentFrame
    | .sleep _ => none

/-- The bytes that the injector sends. -/
def bytesOf (acts : List Action) : List UInt8 :=
  acts.flatMap fun
    | .send m => m.bytes
    | .sleep _ => []

/-- The frames of actions in two parts. -/
@[simp] theorem framesOf_append (acts acts' : List Action) :
    framesOf (acts ++ acts') = framesOf acts ++ framesOf acts' :=
  List.filterMap_append

/-- The bytes of actions in two parts. -/
@[simp] theorem bytesOf_append (acts acts' : List Action) :
    bytesOf (acts ++ acts') = bytesOf acts ++ bytesOf acts' :=
  List.flatMap_append

namespace SharedCfg

/-- A call does not change the weights. -/
theorem weights_runNext (c : SharedCfg) : c.runNext.2.1.weights = c.weights := by
  rw [runNext]
  split
  · rfl
  · obtain ⟨g, hpick⟩ := c.pick_state
    obtain ⟨g', hslot⟩ := c.pick.2.emitSlot_state c.pick.1
    change (c.pick.2.emitSlot c.pick.1).1.weights = c.weights
    rw [hslot, hpick]

/-- Nor do any number of calls. -/
theorem weights_calls (k : ℕ) (c : SharedCfg) : (c.calls k).1.weights = c.weights := by
  induction k generalizing c with
  | zero => rfl
  | succ k ih => exact (ih _).trans c.weights_runNext

/-- Without weights a slot is clean: one sensor frame and the sleep behind it. -/
theorem runNext_clean {c : SharedCfg} (h : c.sent.toNat < c.packets.toNat)
    (hweights : c.weights = List.Vector.replicate nFaultKinds 0) :
    ∃ value, c.runNext.2.2 = [.send (.sensor c.seq value 0), .sleep c.cadenceMs.toNat] := by
  have hpick : c.pick = (0, c) := by
    rw [pick, hweights]
    rfl
  rw [runNext_of_lt h, hpick]
  exact ⟨_, rfl⟩

end SharedCfg

/-- What a clean campaign sends before END: one sensor frame for each packet. -/
theorem clean_campaignUpTo (seed : UInt32) (packets cadenceMs : UInt16) {k : ℕ}
    (hk : k ≤ packets.toNat) :
    (framesOf (campaignUpTo (.clean seed packets cadenceMs) k)).length = k ∧
      (∀ f ∈ framesOf (campaignUpTo (.clean seed packets cadenceMs) k), f.kind = kSensor) ∧
      bytesOf (campaignUpTo (.clean seed packets cadenceMs) k) =
        (framesOf (campaignUpTo (.clean seed packets cadenceMs) k)).flatMap Frame.bytes := by
  induction k with
  | zero => exact ⟨rfl, fun f hf => absurd hf List.not_mem_nil, rfl⟩
  | succ k ih =>
      obtain ⟨hlen, hkind, hbytes⟩ := ih (by omega)
      obtain ⟨-, -, hcounts, hpackets⟩ :=
        SharedCfg.calls_fresh (.clean seed packets cadenceMs) (k := k)
          (by exact Nat.le_of_succ_le hk)
      obtain ⟨value, hslot⟩ := SharedCfg.runNext_clean
        (c := ((SharedCfg.ofConfig (.clean seed packets cadenceMs)).calls k).1)
        (by rw [hcounts.sent, hpackets]; exact hk) (SharedCfg.weights_calls k _)
      rw [campaignUpTo_succ, hslot, framesOf_append, bytesOf_append, hbytes, List.flatMap_append]
      refine ⟨by rw [List.length_append, hlen]; rfl, fun f hf => ?_, ?_⟩
      swap
      · simp [bytesOf, framesOf]
        rfl
      rcases List.mem_append.mp hf with hf | hf
      · exact hkind f hf
      · obtain rfl := List.mem_singleton.mp hf
        rfl

/-- A whole campaign sends END behind its packets, with the number of its faults. -/
theorem freshCampaign_eq (cfg : CampaignConfig) :
    ∃ faults, freshCampaign cfg =
        campaignUpTo cfg cfg.packets.toNat ++ [.send (.campaignEnd cfg.packets faults)] ∧
      faults.toNat = (faultEvents (campaignUpTo cfg cfg.packets.toNat)).length ∧
      faults.toNat ≤ cfg.packets.toNat := by
  obtain ⟨-, -, hcounts, hpackets⟩ :=
    SharedCfg.calls_fresh cfg (k := cfg.packets.toNat) le_rfl
  refine ⟨((SharedCfg.ofConfig cfg).calls cfg.packets.toNat).1.faultId, ?_, ?_,
    hcounts.faultId.trans_le hcounts.le⟩
  · have hlast := campaignUpTo_succ cfg cfg.packets.toNat
    rw [SharedCfg.runNext, if_pos, hpackets] at hlast
    · exact hlast
    · rw [UInt16.le_iff_toNat_le, hcounts.sent, hpackets]
  · rw [hcounts.faultId, campaignUpTo, faultEvents, List.filterMap_flatMap]
    rfl

/-- Sensor frames with an END behind them: the campaign sees the sensor frames. -/
theorem beforeEnd_concat {fs : List Frame} (h : ∀ f ∈ fs, f.kind = kSensor) {last : Frame}
    (hlast : last.kind = kEnd) : beforeEnd (fs ++ [last]) = fs := by
  have hne : ∀ f ∈ fs, decide (f.kind ≠ kEnd) = true := fun f hf => by rw [h f hf]; decide
  rw [beforeEnd, List.takeWhile_append_of_pos hne, List.takeWhile_cons_of_neg (by simp [hlast]),
    List.append_nil]

/-- **A campaign without faults is full of alarms.** The injector sends a clean campaign, none of
whose frames has a sync byte for a checksum, and its bytes arrive undisturbed, cut into chunks in
any way. The device under test records a burst for every packet after the first, and a CRC failure
for every packet whose frame does not happen to pass; no ground truth is collected that could
account for any of them. -/
theorem clean_campaign (seed : UInt32) (packets cadenceMs : UInt16)
    (hapart : ∀ f ∈ framesOf (freshCampaign (.clean seed packets cadenceMs)), f.Apart)
    {chunks : List (List UInt8)}
    (hcut : chunks.flatten = bytesOf (freshCampaign (.clean seed packets cadenceMs))) :
    ∃ p frames, parseStream .new chunks = some (p, frames) ∧
      ∀ arrivals : List (Clock × DuFrame), arrivals.map Prod.snd = frames →
        countKind .crc (receive (.new cadenceMs) [] arrivals).1.detections +
            (framesOf (campaignUpTo (.clean seed packets cadenceMs) packets.toNat)).countP
              (fun f => decide f.Passes) = packets.toNat ∧
          countKind .burst (receive (.new cadenceMs) [] arrivals).1.detections =
            packets.toNat - 1 ∧
          (receive (.new cadenceMs) [] arrivals).2 = [] := by
  obtain ⟨hlen, hkind, hbytes⟩ := clean_campaignUpTo seed packets cadenceMs le_rfl
  obtain ⟨faults, hfresh, -⟩ := freshCampaign_eq (.clean seed packets cadenceMs)
  change freshCampaign _ = campaignUpTo _ packets.toNat ++ [.send (.campaignEnd packets faults)]
    at hfresh
  generalize campaignUpTo (.clean seed packets cadenceMs) packets.toNat = acts at *
  let last : Frame := ⟨kEnd, endPayload packets faults, endPayload_fits packets faults⟩
  have hframes : framesOf (freshCampaign (.clean seed packets cadenceMs)) =
      framesOf acts ++ [last] := by
    rw [hfresh, framesOf_append]
    rfl
  have hsent : chunks.flatten = (framesOf acts ++ [last]).flatMap Frame.bytes := by
    rw [hcut, hfresh, bytesOf_append, hbytes, List.flatMap_append]
    rfl
  rw [hframes] at hapart
  have hbound : (framesOf acts ++ [last]).length < 2 ^ 32 := by
    have hpackets := packets.toNat_lt
    rw [List.length_append, hlen, List.length_singleton]
    omega
  obtain ⟨p, frames, hparse, hcounts⟩ := flawless_link cadenceMs hapart hbound hsent
  refine ⟨p, frames, hparse, fun arrivals harrive => ?_⟩
  obtain ⟨hcrc, hburst, htruths⟩ := hcounts arrivals harrive
  rw [beforeEnd_concat hkind rfl] at hcrc hburst htruths
  have hhanded : ∀ f ∈ framesOf acts, f.isHanded = true := fun f hf => by
    rw [Frame.isHanded, hkind f hf]
    decide
  refine ⟨?_, ?_, ?_⟩
  · have halarms : (framesOf acts).countP Frame.alarms =
        (framesOf acts).countP fun f => !decide f.Passes :=
      List.countP_congr fun f hf => by rw [Frame.alarms, hhanded f hf, Bool.true_and]
    have hsplit := List.length_eq_countP_add_countP (fun f : Frame => decide f.Passes)
      (l := framesOf acts)
    simp only [decide_eq_true_eq, decide_not] at hsplit
    rw [hcrc, halarms, Nat.add_comm, ← hsplit, hlen]
  · rw [hburst, List.countP_eq_length.mpr fun f hf => hhanded f (List.mem_of_mem_tail hf),
      List.length_tail, hlen]
  · rw [← List.length_eq_zero_iff, htruths, List.countP_eq_zero]
    intro f hf
    simp [Frame.admits, hkind f hf, kSensor, kFault]

/-- A clean campaign of three packets, byte by byte. -/
theorem clean_campaign_of_three :
    ∃ p frames, parseStream .new ((bytesOf (freshCampaign (.clean 1 3 5))).map fun b => [b]) =
        some (p, frames) ∧
      ∀ arrivals : List (Clock × DuFrame), arrivals.map Prod.snd = frames →
        countKind .crc (receive (.new 5) [] arrivals).1.detections +
            (framesOf (campaignUpTo (.clean 1 3 5) 3)).countP (fun f => decide f.Passes) = 3 ∧
          countKind .burst (receive (.new 5) [] arrivals).1.detections = 2 ∧
          (receive (.new 5) [] arrivals).2 = [] :=
  clean_campaign 1 3 5 (by decide +kernel) (by simp [← List.flatMap_def])

end FaultForge
