import FaultForge.Codec
import FaultForge.Misread
import FaultForge.Session

/-!
# What the Injector Hears

The simulated injector reads the control frames of the host through the shared parser, which
compares the wrong byte with the checksum (`FaultForge.Parser`). PING and ABORT have no
payload, so there the kind byte would have to be its own checksum, which it is not: the injector
never hears them. A START is heard if its last weight equals its checksum (`Audible`).

The second half counts: every chunk that the host sends, whatever is in it, buys the running
campaign one call of `run_next`.

## Main results

* `injector_hears`: of all control messages the injector hears the audible STARTs.
* `one_call_per_chunk`: how far a campaign gets is the number of chunks behind its START.
-/

namespace FaultForge

/-! ### Control messages -/

/-- A control message of the host, as the arguments of the encoder that produced its bytes. -/
inductive ControlMsg where
  | ping
  | start (cfg : CampaignConfig)
  | abort
deriving DecidableEq

namespace ControlMsg

/-- The bytes that are sent for a control message. -/
def bytes : ControlMsg → List UInt8
  | ping => encodePing.toVec
  | start cfg => (encodeStart cfg).toVec
  | abort => encodeAbort.toVec

/-- A START fits into a frame. -/
theorem startPayload_fits (cfg : CampaignConfig) : (startPayload cfg).length ≤ maxPayload := by
  rw [length_startPayload]
  decide

/-- The frame of a control message. -/
def frame : ControlMsg → Frame
  | ping => ⟨kPing, [], Nat.zero_le _⟩
  | start cfg => ⟨kStart, startPayload cfg, startPayload_fits cfg⟩
  | abort => ⟨kAbort, [], Nat.zero_le _⟩

/-- The bytes of a message are those of its frame. -/
theorem bytes_frame (m : ControlMsg) : m.frame.bytes = m.bytes := by
  cases m <;> rfl

/-- So are the bytes of several messages. -/
theorem flatMap_bytes (msgs : List ControlMsg) :
    (msgs.map frame).flatMap Frame.bytes = msgs.flatMap bytes := by
  rw [List.flatMap_map]
  exact congrArg (msgs.flatMap ·) (funext bytes_frame)

end ControlMsg

/-- The last weight of the configuration equals the checksum of its START frame. -/
def Audible (cfg : CampaignConfig) : Prop :=
  cfg.weights.toList.getLast? = some (crc8 (covered kStart (startPayload cfg)))

instance (cfg : CampaignConfig) : Decidable (Audible cfg) :=
  inferInstanceAs (Decidable (_ = _))

/-- The control frame that the injector takes the message for. -/
def ControlMsg.heard : ControlMsg → Option Command
  | start cfg => if Audible cfg then some (.start cfg) else none
  | _ => none

/-! ### Through the parser -/

/-- The last byte that the checksum of a START covers is its last weight. -/
theorem audible_iff_passes (cfg : CampaignConfig) :
    Audible cfg ↔ (ControlMsg.start cfg).frame.Passes := by
  have hne : cfg.weights.toList ≠ [] := by
    rw [← List.length_pos_iff, cfg.weights.toList_length]
    decide
  have hlast : (kStart :: startPayload cfg).getLast (List.cons_ne_nil _ _) =
      cfg.weights.toList.getLast hne := by
    obtain ⟨front, hfront⟩ : ∃ front, kStart :: startPayload cfg = front ++ cfg.weights.toList :=
      ⟨_, by rw [startPayload_eq, ← List.cons_append]⟩
    simp only [hfront]
    exact List.getLast_append_of_right_ne_nil _ _ hne
  rw [Audible, Frame.Passes, List.getLast?_eq_some_getLast hne, Option.some.injEq, ← hlast]
  rfl

/-- **One message**: what the injector makes of the verdict on it. -/
theorem command_verdict (m : ControlMsg) : m.frame.verdict.command = m.heard := by
  cases m with
  | ping => decide +kernel
  | abort => decide +kernel
  | start cfg =>
      by_cases h : Audible cfg
      · rw [Frame.verdict_of_passes ((audible_iff_passes cfg).mp h), ControlMsg.heard, if_pos h]
        refine congrArg some ((Command.mk.injEq ..).mpr ⟨rfl, ?_⟩)
        exact FixedArray.take_padded 0 (startPayload cfg) _
      · rw [Frame.verdict_of_not_passes (mt (audible_iff_passes cfg).mpr h), ControlMsg.heard,
          if_neg h]
        rfl

/-- What is heard depends on the outcomes only, not on when they come. -/
theorem commands_eq (outs : List (Option Decoded)) :
    commands outs = outs.reduceOption.filterMap Decoded.command := by
  rw [commands, List.reduceOption, List.filterMap_filterMap]
  rfl

/-- The control frames in a stream of control messages. -/
theorem commands_reports (msgs : List ControlMsg) :
    ((msgs.map ControlMsg.frame).flatMap Frame.reports).filterMap Decoded.command =
      msgs.filterMap ControlMsg.heard := by
  induction msgs with
  | nil => rfl
  | cons m msgs ih =>
      rw [List.map_cons, List.flatMap_cons, List.filterMap_append, ih, Frame.reports,
        List.filterMap_cons, command_verdict]
      cases h : m.heard with
      | none => rw [List.filterMap_cons_none h]; rfl
      | some f => rw [List.filterMap_cons_some h]; rfl

/-- Cutting a stream into chunks changes none of the control frames in it. -/
theorem flatten_decodedChunks {p p' : FrameParser} {chunks : List (List UInt8)}
    {outs : List (Option Decoded)} {decoded : List (List Command)}
    (hdecoded : decodedChunks p chunks = some decoded)
    (hrun : p.run chunks.flatten = some (p', outs)) : decoded.flatten = commands outs := by
  induction chunks generalizing p decoded outs with
  | nil =>
      obtain rfl := Option.some.inj hdecoded
      obtain ⟨-, rfl⟩ := Prod.mk.inj (Option.some.inj hrun)
      rfl
  | cons chunk chunks ih =>
      obtain ⟨r, hr, hdecoded⟩ := Option.bind_eq_some_iff.mp hdecoded
      obtain ⟨rest, hrest, rfl⟩ := Option.map_eq_some_iff.mp hdecoded
      rw [List.flatten_cons, FrameParser.run, Transducer.run_append] at hrun
      obtain ⟨r', hr', hrun⟩ := Option.bind_eq_some_iff.mp hrun
      obtain rfl : r = r' := Option.some.inj (hr.symm.trans hr')
      obtain ⟨t, ht, hrun⟩ := Option.map_eq_some_iff.mp hrun
      obtain ⟨rfl, rfl⟩ := Prod.mk.inj hrun
      rw [List.flatten_cons, ih hrest ht, commands, commands, commands, List.filterMap_append]

/-! ### Sessions without a PING -/

/-- Advancing a campaign sends no PONG. -/
theorem quiet_advance (cfg : Option SharedCfg) : ∀ a ∈ (advance cfg).2, a ≠ .send .pong := by
  cases cfg with
  | none => simp [advance]
  | some c =>
      simp only [advance, SharedCfg.runNext]
      split
      · simp
      · exact fun a ha => (quiet_emitSlot _ _ a ha).1

/-- A round without a PING in its chunk sends no PONG. -/
theorem pong_notMem_round {cfg : Option SharedCfg} {chunk : List Command}
    (h : ∀ f ∈ chunk, f.kind ≠ kPing) :
    Action.send .pong ∉ actionsOf (roundRecorded cfg chunk).2 := by
  have hanswers : ∀ {cfg : Option SharedCfg} {chunk : List Command},
      (∀ f ∈ chunk, f.kind ≠ kPing) →
      actionsOf (Monitor.run answer cfg chunk).2 = [] := by
    intro cfg chunk h
    induction chunk generalizing cfg with
    | nil => rfl
    | cons f fs ih =>
        obtain ⟨hf, hfs⟩ := List.forall_mem_cons.mp h
        have hfirst : actionsOf (answer cfg f).2 = [] := by
          rcases answer_cases cfg f with ⟨hping, -⟩ | ⟨c, -, h⟩ | h | ⟨-, -, -, h⟩
          · exact absurd hping hf
          · rw [h]; rfl
          · rw [h]; rfl
          · rw [h]; rfl
        rw [Monitor.run, actionsOf_append, hfirst, ih hfs, List.append_nil]
  rw [roundRecorded, Monitor.andThen, actionsOf_append, hanswers h, List.nil_append,
    advanceRecorded, actionsOf_did]
  exact fun hmem => quiet_advance _ _ hmem rfl

/-- A session without a PING sends no PONG. -/
theorem pong_notMem_session {chunks : List (List Command)}
    (h : ∀ f ∈ chunks.flatten, f.kind ≠ kPing) :
    Action.send .pong ∉ actionsOf (session chunks).2 := by
  have hrun : ∀ cfg, Action.send .pong ∉ actionsOf (Monitor.run roundRecorded cfg chunks).2 := by
    induction chunks with
    | nil => exact fun _ => List.not_mem_nil
    | cons chunk chunks ih =>
        intro cfg
        rw [List.flatten_cons] at h
        rw [Monitor.run, actionsOf_append, List.mem_append, not_or]
        exact ⟨pong_notMem_round fun f hf => h f (List.mem_append_left _ hf),
          ih (fun f hf => h f (List.mem_append_right _ hf)) _⟩
  exact hrun none

/-- A session in which nothing is heard does nothing. -/
theorem session_of_silence {chunks : List (List Command)} (h : chunks.flatten = []) :
    session chunks = (none, []) := by
  induction chunks with
  | nil => rfl
  | cons chunk chunks ih =>
      obtain ⟨rfl, hrest⟩ := List.append_eq_nil_iff.mp h
      exact ih hrest

/-- **What the injector hears.** Let a host send any PINGs, STARTs and ABORTs, cut into chunks
in any way, of which no checksum is a sync byte. Of all that the thread of `open_sim` hears the
audible STARTs, in order, and nothing else. It answers no PING, it obeys no ABORT, and if no
START is audible it does nothing at all. -/
theorem injector_hears {msgs : List ControlMsg} (hapart : ∀ m ∈ msgs, m.frame.Apart)
    {chunks : List (List UInt8)} (hcut : chunks.flatten = msgs.flatMap ControlMsg.bytes) :
    ∃ p decoded, decodedChunks .new chunks = some decoded ∧
      decoded.flatten = msgs.filterMap ControlMsg.heard ∧
      openSim .new none chunks = some (p, (session decoded).1, actionsOf (session decoded).2) ∧
      Action.send .pong ∉ actionsOf (session decoded).2 ∧
      ((∀ cfg, .start cfg ∈ msgs → ¬ Audible cfg) →
        openSim .new none chunks = some (p, none, [])) := by
  obtain ⟨p, decoded, hdecoded, hopen⟩ := openSim_eq chunks
  have hframes : ∀ f ∈ msgs.map ControlMsg.frame, f.Apart := fun f hf => by
    obtain ⟨m, hm, rfl⟩ := List.mem_map.mp hf
    exact hapart m hm
  obtain ⟨p', outs, hrun, -, houts⟩ := Frame.run_frames hframes
  rw [ControlMsg.flatMap_bytes, ← hcut] at hrun
  have hheard : decoded.flatten = msgs.filterMap ControlMsg.heard := by
    rw [flatten_decodedChunks hdecoded hrun, commands_eq, houts, commands_reports]
  have hkind : ∀ f ∈ decoded.flatten, f.kind ≠ kPing := by
    rw [hheard]
    intro f hf
    obtain ⟨m, -, hm⟩ := List.mem_filterMap.mp hf
    cases m with
    | ping => exact nomatch hm
    | abort => exact nomatch hm
    | start cfg =>
        obtain ⟨-, hf⟩ := Option.ite_none_right_eq_some.mp hm
        rw [← Option.some.inj hf]
        exact (by decide : kStart ≠ kPing)
  refine ⟨p, decoded, hdecoded, hheard, hopen, pong_notMem_session hkind, fun hnone => ?_⟩
  have hsilence : decoded.flatten = [] := by
    rw [hheard, List.filterMap_eq_nil_iff]
    intro m hm
    cases m with
    | ping => rfl
    | abort => rfl
    | start cfg => exact if_neg (hnone cfg hm)
  rw [hopen, session_of_silence hsilence]
  rfl

/-- Of PING, the START of a two-packet campaign with seed 156, and ABORT, the START is heard. -/
theorem audible_start_heard :
    let start := ControlMsg.start ⟨156, 2, 5, ⟨[8, 8, 8, 8, 8, 8, 0], rfl⟩⟩
    ∃ p decoded, decodedChunks .new [ControlMsg.ping.bytes ++ start.bytes, ControlMsg.abort.bytes] =
        some decoded ∧
      decoded.flatten = [ControlMsg.ping, start, .abort].filterMap ControlMsg.heard ∧
      openSim .new none [ControlMsg.ping.bytes ++ start.bytes, ControlMsg.abort.bytes] =
        some (p, (session decoded).1, actionsOf (session decoded).2) ∧
      Action.send .pong ∉ actionsOf (session decoded).2 ∧
      ((∀ cfg, .start cfg ∈ [ControlMsg.ping, start, .abort] → ¬ Audible cfg) →
        openSim .new none [ControlMsg.ping.bytes ++ start.bytes, ControlMsg.abort.bytes] =
          some (p, none, [])) :=
  injector_hears (by decide +kernel) (by simp)

/-! ### One call for each chunk -/

namespace SharedCfg

/-- The state of the thread after some calls of a fresh campaign: past the one that sends END the
campaign is gone. -/
def afterCalls (cfg : CampaignConfig) (k : ℕ) : Option SharedCfg :=
  if k ≤ cfg.packets.toNat then some ((ofConfig cfg).calls k).1 else none

/-- What the calls of a campaign do, of which none comes behind the one that sends END. -/
def doneAfter (cfg : CampaignConfig) (k : ℕ) : List Action :=
  campaignUpTo cfg (min k (cfg.packets.toNat + 1))

/-- **One call**: advancing the campaign makes the next call, if there is one. -/
theorem advance_afterCalls (cfg : CampaignConfig) (k : ℕ) :
    (advance (afterCalls cfg k)).1 = afterCalls cfg (k + 1) ∧
      doneAfter cfg (k + 1) = doneAfter cfg k ++ (advance (afterCalls cfg k)).2 := by
  rcases Nat.lt_or_ge cfg.packets.toNat k with hover | hle
  · rw [afterCalls, if_neg (by omega), afterCalls, if_neg (by omega), doneAfter, doneAfter,
      Nat.min_eq_right (by omega), Nat.min_eq_right (by omega)]
    exact ⟨rfl, (List.append_nil _).symm⟩
  · obtain ⟨-, -, hcounts, hpackets⟩ := calls_fresh cfg hle
    have hnext : ((ofConfig cfg).calls (k + 1)).1 = ((ofConfig cfg).calls k).1.runNext.2.1 := by
      rw [calls_add]
      rfl
    have hdone : doneAfter cfg (k + 1) =
        doneAfter cfg k ++ ((ofConfig cfg).calls k).1.runNext.2.2 := by
      rw [doneAfter, doneAfter, Nat.min_eq_left (by omega), Nat.min_eq_left (by omega),
        campaignUpTo_succ]
    rw [afterCalls, if_pos hle, afterCalls]
    refine ⟨?_, hdone⟩
    rcases Nat.lt_or_eq_of_le hle with hlt | heq
    · have hmore : ((ofConfig cfg).calls k).1.runNext.1 = false := by
        rw [runNext_of_lt (by rw [hcounts.sent, hpackets]; exact hlt)]
      rw [if_pos (by omega), hnext]
      simp only [advance, hmore, Bool.false_eq_true, if_false]
    · have hlast : ((ofConfig cfg).calls k).1.runNext.1 = true := by
        rw [runNext, if_pos]
        rw [UInt16.le_iff_toNat_le, hcounts.sent, hpackets, heq]
      rw [if_neg (by omega)]
      simp only [advance, hlast, if_true]

end SharedCfg

/-- A control frame that neither starts nor stops a campaign. -/
def Command.Idle (f : Command) : Prop :=
  (Event.heard f).started = none ∧ (Event.heard f).stops = false

instance (f : Command) : Decidable f.Idle :=
  inferInstanceAs (Decidable (_ ∧ _))

/-- An idle control frame leaves the campaign as it is, and does nothing for it. -/
theorem answer_idle {f : Command} (h : f.Idle) (cfg : Option SharedCfg) :
    (answer cfg f).1 = cfg ∧ (answer cfg f).2.filterMap Event.ofCampaign = [] := by
  obtain ⟨hstart, hstop⟩ := h
  have habort : f.kind ≠ kAbort := by simpa [Event.stops] using hstop
  by_cases hping : f.kind = kPing
  · simp [answer, handle, hping, Event.ofCampaign]
  · by_cases hkind : f.kind = kStart
    · have hdecode : decodeStart f.payload = none := by
        rw [Event.started, if_pos hkind] at hstart
        exact hstart
      simp [answer, handle, hkind, hdecode, kStart, kPing, Event.ofCampaign]
    · simp [answer, handle, hping, hkind, habort, Event.ofCampaign]

/-- Any number of idle commands leave the campaign alone. -/
theorem run_answer_idle (cfg : Option SharedCfg) {fs : List Command} (h : ∀ f ∈ fs, f.Idle) :
    (Monitor.run answer cfg fs).1 = cfg ∧
      (Monitor.run answer cfg fs).2.filterMap Event.ofCampaign = [] := by
  induction fs with
  | nil => exact ⟨rfl, rfl⟩
  | cons f fs ih =>
      obtain ⟨hf, hfs⟩ := List.forall_mem_cons.mp h
      obtain ⟨hcfg, hother⟩ := ih hfs
      obtain ⟨hfirst, hnothing⟩ := answer_idle hf cfg
      rw [Monitor.run, List.filterMap_append, hfirst, hnothing, hcfg, hother]
      exact ⟨rfl, rfl⟩

/-- What a recorded list of actions does for the campaign, PONGs apart. -/
theorem ofCampaign_advance (cfg : Option SharedCfg) :
    ((advance cfg).2.map .did).filterMap Event.ofCampaign = (advance cfg).2 :=
  ofCampaign_did (quiet_advance cfg)

/-- An accepted START begins its campaign, whatever came before it in the chunk. -/
theorem roundRecorded_start {f : Command} {cfg : CampaignConfig}
    (hstart : (Event.heard f).started = some cfg) (c : Option SharedCfg) (pre post : List Command) :
    roundRecorded c (pre ++ f :: post) =
      ((roundRecorded (SharedCfg.afterCalls cfg 0) post).1, (Monitor.run answer c pre).2 ++
        .heard f :: (roundRecorded (SharedCfg.afterCalls cfg 0) post).2) := by
  have hfirst : ∀ c, answer c f = (SharedCfg.afterCalls cfg 0, [.heard f]) := by
    intro c
    by_cases hkind : f.kind = kStart
    · rw [Event.started, if_pos hkind] at hstart
      simp [answer, handle, hkind, hstart, kStart, kPing, SharedCfg.afterCalls, SharedCfg.calls]
    · rw [Event.started, if_neg hkind] at hstart
      cases hstart
  simp only [roundRecorded, Monitor.andThen, advanceRecorded, Monitor.run_append, Monitor.run,
    hfirst, List.append_assoc, List.nil_append, List.cons_append]

/-- **One chunk** without a START and an ABORT advances the campaign by one call. -/
theorem round_idle {chunk : List Command} (h : ∀ f ∈ chunk, f.Idle) (cfg : CampaignConfig)
    (k : ℕ) :
    (roundRecorded (SharedCfg.afterCalls cfg k) chunk).1 = SharedCfg.afterCalls cfg (k + 1) ∧
      SharedCfg.doneAfter cfg (k + 1) = SharedCfg.doneAfter cfg k ++
        (roundRecorded (SharedCfg.afterCalls cfg k) chunk).2.filterMap Event.ofCampaign := by
  obtain ⟨hcfg, hother⟩ := run_answer_idle (SharedCfg.afterCalls cfg k) h
  obtain ⟨hnext, hdone⟩ := SharedCfg.advance_afterCalls cfg k
  simp only [roundRecorded, Monitor.andThen, advanceRecorded, hcfg, List.filterMap_append, hother,
    List.nil_append, ofCampaign_advance]
  exact ⟨hnext, hdone⟩

/-- Many chunks without a START and an ABORT. -/
theorem rounds_idle {chunks : List (List Command)} (h : ∀ chunk ∈ chunks, ∀ f ∈ chunk, f.Idle)
    (cfg : CampaignConfig) (k : ℕ) :
    (Monitor.run roundRecorded (SharedCfg.afterCalls cfg k) chunks).1 =
        SharedCfg.afterCalls cfg (k + chunks.length) ∧
      SharedCfg.doneAfter cfg (k + chunks.length) = SharedCfg.doneAfter cfg k ++
        (Monitor.run roundRecorded (SharedCfg.afterCalls cfg k) chunks).2.filterMap
          Event.ofCampaign := by
  induction chunks generalizing k with
  | nil => exact ⟨rfl, (List.append_nil _).symm⟩
  | cons chunk chunks ih =>
      obtain ⟨hchunk, hchunks⟩ := List.forall_mem_cons.mp h
      obtain ⟨hnext, hdone⟩ := round_idle hchunk cfg k
      obtain ⟨hrest, hdones⟩ := ih hchunks (k + 1)
      have hk : k + (chunk :: chunks).length = k + 1 + chunks.length := by
        rw [List.length_cons]
        omega
      rw [Monitor.run, List.filterMap_append, hnext, hrest, hk, hdones, hdone, List.append_assoc]
      exact ⟨rfl, rfl⟩

/-- **Every chunk buys one call.** Behind the last START accepted, with no ABORT since, a
session does what the first calls of a fresh campaign do, one for the chunk of that START and
one for every chunk after it, whatever PINGs and other frames are in them. So the campaign is
over, with its END sent, iff the host has sent as many chunks behind the START as the campaign
has packets. -/
theorem one_call_per_chunk {f : Command} {cfg : CampaignConfig}
    (hstart : (Event.heard f).started = some cfg) (before : List (List Command))
    (pre : List Command) {post : List Command} (hpost : ∀ g ∈ post, g.Idle)
    {after : List (List Command)} (hafter : ∀ chunk ∈ after, ∀ g ∈ chunk, g.Idle) :
    ∃ earlier since,
      (session (before ++ (pre ++ f :: post) :: after)).2 = earlier ++ .heard f :: since ∧
      since.filterMap Event.ofCampaign =
        campaignUpTo cfg (min (after.length + 1) (cfg.packets.toNat + 1)) ∧
      ((session (before ++ (pre ++ f :: post) :: after)).1 = none ↔
        cfg.packets.toNat ≤ after.length) := by
  obtain ⟨hnext, hdone⟩ := round_idle hpost cfg 0
  obtain ⟨hend, hdones⟩ := rounds_idle hafter cfg 1
  have hzero : SharedCfg.doneAfter cfg 0 = [] := by
    rw [SharedCfg.doneAfter, Nat.zero_min]
    rfl
  rw [hzero, List.nil_append, Nat.zero_add] at hdone
  rw [Nat.zero_add] at hnext
  rw [session, Monitor.run_append, Monitor.run, roundRecorded_start hstart, hnext]
  generalize Monitor.run roundRecorded none before = earlier
  refine ⟨earlier.2 ++ (Monitor.run answer earlier.1 pre).2,
    (roundRecorded (SharedCfg.afterCalls cfg 0) post).2 ++
      (Monitor.run roundRecorded (SharedCfg.afterCalls cfg 1) after).2,
    by simp only [List.append_assoc, List.cons_append], ?_, ?_⟩
  · rw [List.filterMap_append, ← hdone, ← hdones, Nat.add_comm 1]
    rfl
  · rw [hend, SharedCfg.afterCalls]
    split
    · next h => simp; omega
    · next h => simp; omega

/-- Two PINGs behind its START see a campaign of two packets through. -/
theorem two_pings_finish :
    ∃ earlier since,
      (session ([] ++ ([] ++ Command.start (.clean 1 2 5) :: []) ::
        [[⟨kPing, []⟩], [⟨kPing, []⟩]])).2 = earlier ++ .heard (.start (.clean 1 2 5)) :: since ∧
      since.filterMap Event.ofCampaign = campaignUpTo (.clean 1 2 5) (min (2 + 1) (2 + 1)) ∧
      ((session ([] ++ ([] ++ Command.start (.clean 1 2 5) :: []) ::
        [[⟨kPing, []⟩], [⟨kPing, []⟩]])).1 = none ↔ 2 ≤ 2) :=
  @one_call_per_chunk _ (.clean 1 2 5) (by decide +kernel) [] [] _ (by simp) _
    (by decide +kernel)

end FaultForge
