import FaultForge.Bench
import FaultForge.Ledger
import FaultForge.Lib.Monitor
import FaultForge.Parser

/-!
# Sessions of the Simulated Injector

What the injector thread does over any sequence of chunks, with any control frames in them.
A session is written down as one trace, in which the frames that are heard stand between
the actions that are done (`Event`).

`Permitted` is the protocol: whatever is done, PONGs apart, belongs to the campaign of the
last START accepted, which has been neither aborted nor ended since, and together with what
has been done for that campaign so far it is the beginning of a fresh campaign. The invariant
behind it is `Running`, which ties the state of the thread to the number of calls that the
campaign has made.

## Main results

* `openSim_eq`: the loop over bytes is a session of the frames in them.
* `session_safe`: every session follows the protocol.
-/

namespace FaultForge

open Monitor

/-! ### A fresh campaign -/

namespace SharedCfg

/-- Calls in a row are calls after calls. -/
theorem calls_add (j k : ℕ) (c : SharedCfg) :
    c.calls (j + k) = (((c.calls j).1.calls k).1, (c.calls j).2 ++ ((c.calls j).1.calls k).2) := by
  induction j generalizing c with
  | zero => simp [calls]
  | succ j ih => rw [Nat.succ_add_eq_add_succ, Nat.add_succ, calls, ih, calls]; rfl

end SharedCfg

/-- What the first `k` calls of a fresh campaign do. -/
def campaignUpTo (cfg : CampaignConfig) (k : ℕ) : List Action :=
  ((SharedCfg.ofConfig cfg).calls k).2.flatMap Call.actions

/-- All that a fresh campaign does, one call for each packet and one for END. -/
def freshCampaign (cfg : CampaignConfig) : List Action :=
  campaignUpTo cfg (cfg.packets.toNat + 1)

/-- One more call. -/
theorem campaignUpTo_succ (cfg : CampaignConfig) (k : ℕ) :
    campaignUpTo cfg (k + 1) =
      campaignUpTo cfg k ++ ((SharedCfg.ofConfig cfg).calls k).1.runNext.2.2 := by
  rw [campaignUpTo, SharedCfg.calls_add, List.flatMap_append]
  simp [SharedCfg.calls, campaignUpTo]

/-- Further calls only add to what is sent. -/
theorem campaignUpTo_isPrefix (cfg : CampaignConfig) {j k : ℕ} (h : j ≤ k) :
    campaignUpTo cfg j <+: campaignUpTo cfg k := by
  obtain ⟨i, rfl⟩ := Nat.exists_eq_add_of_le h
  rw [campaignUpTo, campaignUpTo, SharedCfg.calls_add, List.flatMap_append]
  exact List.prefix_append _ _

/-! ### Events -/

/-- A control frame that the thread has decoded, or an action that it does. -/
inductive Event where
  | heard (f : Command)
  | did (a : Action)
deriving DecidableEq

namespace Event

/-- The campaign that an accepted START asks for. -/
def started : Event → Option CampaignConfig
  | heard f => if f.kind = kStart then decodeStart f.payload else none
  | did _ => none

/-- An END is sent. -/
def isEnd : Event → Bool
  | did (.send m) => m.isEnd
  | _ => false

/-- An ABORT is heard or an END is sent. -/
def stops : Event → Bool
  | heard f => f.kind = kAbort
  | did a => (did a).isEnd

/-- An action of the campaign: whatever is done except for answering a PING. -/
def ofCampaign : Event → Option Action
  | heard _ => none
  | did a => if a = .send .pong then none else some a

/-- A PING is heard. -/
def isPing : Event → Bool
  | heard f => f.kind = kPing
  | did _ => false

/-- PINGs heard and PONGs sent, told apart. -/
def pingPong : Event → Option Bool
  | heard f => if f.kind = kPing then some true else none
  | did a => if a = .send .pong then some false else none

end Event

/-- The actions in a trace. -/
def actionsOf (trace : List Event) : List Action :=
  trace.filterMap fun
    | .heard _ => none
    | .did a => some a

/-- The actions of a trace in two parts. -/
@[simp] theorem actionsOf_append (trace trace' : List Event) :
    actionsOf (trace ++ trace') = actionsOf trace ++ actionsOf trace' :=
  List.filterMap_append

/-- The actions of a campaign as events. -/
@[simp] theorem actionsOf_did (acts : List Action) : actionsOf (acts.map .did) = acts := by
  simp [actionsOf, List.filterMap_map]

/-! ### The protocol -/

/-- The last START accepted in the trace is for a campaign that has been neither aborted nor
ended since, and `since` is what came after it. -/
structure Since (trace : List Event) (cfg : CampaignConfig) (since : List Event) : Prop where
  start : ∃ before e, trace = before ++ e :: since ∧ e.started = some cfg
  last : ∀ e ∈ since, e.started = none
  running : ∀ e ∈ since, e.stops = false

/-- **The protocol.** An action may be done after a trace if it answers a PING, or if it
continues the campaign that the last START accepted has begun. -/
def Permitted (pre : List Event) : Event → Prop
  | .heard _ => True
  | .did a => a = .send .pong ∨ ∃ cfg since, Since pre cfg since ∧
      since.filterMap Event.ofCampaign ++ [a] <+: freshCampaign cfg

/-! ### Sessions -/

/-- Handle one control frame, on record. -/
def answer (cfg : Option SharedCfg) (f : Command) : Option SharedCfg × List Event :=
  ((handle cfg f).1, .heard f :: (handle cfg f).2.map .did)

/-- Advance the campaign behind a chunk, on record. -/
def advanceRecorded (cfg : Option SharedCfg) (_chunk : List Command) :
    Option SharedCfg × List Event :=
  ((advance cfg).1, (advance cfg).2.map .did)

/-- One round of the thread, on record. -/
def roundRecorded : Option SharedCfg → List Command → Option SharedCfg × List Event :=
  andThen (Monitor.run answer) advanceRecorded

/-- A session of the thread: the campaign it ends with and its trace. -/
def session (chunks : List (List Command)) : Option SharedCfg × List Event :=
  Monitor.run roundRecorded none chunks

/-- The recorded rounds are the rounds of the thread. -/
theorem roundRecorded_eq (cfg : Option SharedCfg) (chunk : List Command) :
    round cfg chunk = ((roundRecorded cfg chunk).1, actionsOf (roundRecorded cfg chunk).2) := by
  have hanswers : handleAll cfg chunk =
      ((Monitor.run answer cfg chunk).1, actionsOf (Monitor.run answer cfg chunk).2) := by
    induction chunk generalizing cfg with
    | nil => rfl
    | cons f fs ih =>
        have hfirst : actionsOf (answer cfg f).2 = (handle cfg f).2 := actionsOf_did _
        rw [handleAll, ih, Monitor.run, actionsOf_append, hfirst]
        rfl
  rw [round, hanswers, roundRecorded, andThen, actionsOf_append, advanceRecorded, actionsOf_did]

/-! ### The loop over bytes -/

/-- The control frame that the injector makes of an outcome of its parser. -/
def Decoded.command : Decoded → Option Command
  | frame kind payload len _ => some ⟨kind, payload.toList.take len⟩
  | _ => none

/-- The control frames among the outcomes of the parser. -/
def commands (outs : List (Option Decoded)) : List Command :=
  outs.filterMap fun o => o.bind Decoded.command

/-- The loop of the thread over the bytes of a chunk. -/
def simBytes : FrameParser → Option SharedCfg → List UInt8 →
    Option (FrameParser × Option SharedCfg × List Action)
  | p, cfg, [] => some (p, cfg, [])
  | p, cfg, b :: bs =>
      (p.push b).bind fun r =>
      let handled := match r.2.bind Decoded.command with
        | some f => handle cfg f
        | none => (cfg, [])
      (simBytes r.1 handled.1 bs).map fun t => (t.1, t.2.1, handled.2 ++ t.2.2)

/-- The thread of `open_sim` over the chunks it receives. -/
def openSim : FrameParser → Option SharedCfg → List (List UInt8) →
    Option (FrameParser × Option SharedCfg × List Action)
  | p, cfg, [] => some (p, cfg, [])
  | p, cfg, chunk :: chunks =>
      (simBytes p cfg chunk).bind fun r =>
      let advanced := advance r.2.1
      (openSim r.1 advanced.1 chunks).map fun t => (t.1, t.2.1, r.2.2 ++ advanced.2 ++ t.2.2)

/-- The control frames that the parser takes out of each chunk. -/
def decodedChunks : FrameParser → List (List UInt8) → Option (List (List Command))
  | _, [] => some []
  | p, chunk :: chunks =>
      (p.run chunk).bind fun r => (decodedChunks r.1 chunks).map (commands r.2 :: ·)

/-- The loop over the bytes of a chunk handles the frames that the parser takes out of it. -/
theorem simBytes_eq {p : FrameParser} (hp : p.Ready) (cfg : Option SharedCfg) (bs : List UInt8) :
    ∃ p' outs, p.run bs = some (p', outs) ∧ p'.Ready ∧
      simBytes p cfg bs = some (p', handleAll cfg (commands outs)) := by
  induction bs generalizing p cfg with
  | nil => exact ⟨p, [], rfl, hp, rfl⟩
  | cons b bs ih =>
      obtain ⟨p₁, hpush, -, hready₁⟩ := FrameParser.push_simulates.step p b hp
      generalize (Transducer.feed settle p.pending b).2 = o at hpush
      cases hcommand : o.bind Decoded.command with
      | none =>
          obtain ⟨p₂, outs, hrun, hready₂, hbytes⟩ := ih hready₁ cfg
          refine ⟨p₂, o :: outs, Transducer.run_cons hpush hrun, hready₂, ?_⟩
          have hcommands : commands (o :: outs) = commands outs :=
            List.filterMap_cons_none hcommand
          rw [simBytes, hpush, Option.bind_some]
          simp only [hcommand]
          rw [hbytes, hcommands]
          rfl
      | some f =>
          obtain ⟨p₂, outs, hrun, hready₂, hbytes⟩ := ih hready₁ (handle cfg f).1
          refine ⟨p₂, o :: outs, Transducer.run_cons hpush hrun, hready₂, ?_⟩
          have hcommands : commands (o :: outs) = f :: commands outs :=
            List.filterMap_cons_some hcommand
          rw [simBytes, hpush, Option.bind_some]
          simp only [hcommand]
          rw [hbytes, hcommands]
          rfl

/-- **The loop over bytes never panics, and is a session** of the frames in the chunks. -/
theorem openSim_eq (chunks : List (List UInt8)) :
    ∃ p decoded, decodedChunks .new chunks = some decoded ∧
      openSim .new none chunks = some (p, (session decoded).1, actionsOf (session decoded).2) := by
  have hopen : ∀ {p : FrameParser} (_ : p.Ready) (cfg : Option SharedCfg),
      ∃ p' decoded, decodedChunks p chunks = some decoded ∧
        openSim p cfg chunks = some (p', (Monitor.run roundRecorded cfg decoded).1,
          actionsOf (Monitor.run roundRecorded cfg decoded).2) := by
    induction chunks with
    | nil => exact fun {p} _ cfg => ⟨p, [], rfl, rfl⟩
    | cons chunk chunks ih =>
        intro p hp cfg
        obtain ⟨p₁, outs, hrun, hready, hbytes⟩ := simBytes_eq hp cfg chunk
        obtain ⟨p₂, decoded, hdecoded, hrest⟩ := ih hready (roundRecorded cfg (commands outs)).1
        have hround : round cfg (commands outs) =
            ((advance (handleAll cfg (commands outs)).1).1,
              (handleAll cfg (commands outs)).2 ++
                (advance (handleAll cfg (commands outs)).1).2) := rfl
        obtain ⟨hcfg, hacts⟩ :=
          Prod.mk.inj (hround.symm.trans (roundRecorded_eq cfg (commands outs)))
        refine ⟨p₂, commands outs :: decoded, ?_, ?_⟩
        · rw [decodedChunks, hrun, Option.bind_some, hdecoded]
          rfl
        · simp only [openSim, hbytes, Option.bind_some, hcfg, hrest, Option.map_some, hacts,
            Monitor.run, actionsOf_append]
  exact hopen FrameParser.ready_new none

/-! ### The campaign that is running -/

/-- **The invariant.** The state of the thread is that of the campaign of the last START
accepted after a number of calls, and what these calls do is all that has been done since. -/
structure Running (trace : List Event) (c : SharedCfg) (cfg : CampaignConfig)
    (since : List Event) (k : ℕ) : Prop where
  live : Since trace cfg since
  state : c = ((SharedCfg.ofConfig cfg).calls k).1
  le : k ≤ cfg.packets.toNat
  sofar : since.filterMap Event.ofCampaign = campaignUpTo cfg k

/-- The invariant of a session: if a campaign is running, it is the last one started. -/
def OnCampaign (trace : List Event) (cfg : Option SharedCfg) : Prop :=
  ∀ c ∈ cfg, ∃ conf since k, Running trace c conf since k

/-- Events that start and stop nothing. -/
theorem Since.append {trace since es : List Event} {cfg : CampaignConfig}
    (h : Since trace cfg since) (hstart : ∀ e ∈ es, e.started = none)
    (hstop : ∀ e ∈ es, e.stops = false) : Since (trace ++ es) cfg (since ++ es) := by
  obtain ⟨⟨before, e, rfl, he⟩, hlast, hrunning⟩ := h
  refine ⟨⟨before, e, by simp, he⟩, fun x hx => ?_, fun x hx => ?_⟩
  · exact (List.mem_append.mp hx).elim (hlast x) (hstart x)
  · exact (List.mem_append.mp hx).elim (hrunning x) (hstop x)

/-- Events that start and stop nothing and are no part of the campaign. -/
theorem Running.append {trace since : List Event} {c : SharedCfg} {cfg : CampaignConfig} {k : ℕ}
    (h : Running trace c cfg since k) (es : List Event) (hstart : ∀ e ∈ es, e.started = none)
    (hstop : ∀ e ∈ es, e.stops = false) (hother : es.filterMap Event.ofCampaign = []) :
    Running (trace ++ es) c cfg (since ++ es) k where
  live := h.live.append hstart hstop
  state := h.state
  le := h.le
  sofar := by rw [List.filterMap_append, hother, List.append_nil, h.sofar]

/-- **One control frame** answers PING, starts a campaign, aborts the campaign, or does
nothing. -/
theorem answer_cases (cfg : Option SharedCfg) (f : Command) :
    (f.kind = kPing ∧ answer cfg f = (cfg, [.heard f, .did (.send .pong)])) ∨
    (∃ c, (Event.heard f).started = some c ∧
      answer cfg f = (some (.ofConfig c), [.heard f])) ∨
    answer cfg f = (none, [.heard f]) ∨
    (f.kind ≠ kPing ∧ (Event.heard f).started = none ∧ (Event.heard f).stops = false ∧
      answer cfg f = (cfg, [.heard f])) := by
  by_cases hping : f.kind = kPing
  · exact Or.inl ⟨hping, by simp [answer, handle, hping]⟩
  · by_cases hstart : f.kind = kStart
    · cases hdecode : decodeStart f.payload with
      | some c =>
          refine Or.inr (Or.inl ⟨c, ?_, ?_⟩)
          · rw [Event.started, if_pos hstart, hdecode]
          · simp [answer, handle, hstart, hdecode, kStart, kPing]
      | none =>
          refine Or.inr (Or.inr (Or.inr ⟨hping, ?_, ?_, ?_⟩))
          · rw [Event.started, if_pos hstart, hdecode]
          · simp [Event.stops, hstart, kStart, kAbort]
          · simp [answer, handle, hstart, hdecode, kStart, kPing]
    · by_cases habort : f.kind = kAbort
      · exact Or.inr (Or.inr (Or.inl (by simp [answer, handle, habort, kAbort, kStart, kPing])))
      · refine Or.inr (Or.inr (Or.inr ⟨hping, ?_, ?_, ?_⟩))
        · rw [Event.started, if_neg hstart]
        · simp [Event.stops, habort]
        · simp [answer, handle, hping, hstart, habort]

/-- Hearing a control frame keeps the invariant, and only PONGs are sent. -/
theorem keeps_answer : Keeps answer OnCampaign Permitted where
  preserves trace cfg f hinv := by
    rcases answer_cases cfg f with ⟨hping, h⟩ | ⟨c, hstart, h⟩ | h | ⟨-, hstart, hstop, h⟩
    · have hkind : f.kind ≠ kStart ∧ f.kind ≠ kAbort := by rw [hping]; decide
      rw [h]
      intro c hc
      obtain ⟨conf, since, k, hrunning⟩ := hinv c hc
      refine ⟨conf, _, k, hrunning.append [.heard f, .did (.send .pong)] ?_ ?_ ?_⟩
      · simp [Event.started, hkind.1]
      · simp [Event.stops, hkind.2, Event.isEnd, Msg.isEnd]
      · simp [Event.ofCampaign]
    · rw [h]
      intro c' hc'
      obtain rfl := Option.mem_some_iff.mp hc'
      exact ⟨c, [], 0, ⟨⟨trace, _, rfl, hstart⟩, by simp, by simp⟩, rfl, Nat.zero_le _, rfl⟩
    · rw [h]
      exact fun c hc => absurd hc (by simp)
    · rw [h]
      intro c hc
      obtain ⟨conf, since, k, hrunning⟩ := hinv c hc
      exact ⟨conf, _, k, hrunning.append [.heard f] (by simpa using hstart)
        (by simpa using hstop) (by simp [Event.ofCampaign])⟩
  safe trace cfg f _ := by
    rcases answer_cases cfg f with ⟨-, h⟩ | ⟨c, -, h⟩ | h | ⟨-, -, -, h⟩ <;> rw [h] <;>
      simp [Permitted]

/-- Actions other than PONGs are part of the campaign. -/
theorem ofCampaign_did {acts : List Action} (h : ∀ a ∈ acts, a ≠ .send .pong) :
    (acts.map .did).filterMap Event.ofCampaign = acts := by
  induction acts with
  | nil => rfl
  | cons a acts ih =>
      obtain ⟨ha, hacts⟩ := List.forall_mem_cons.mp h
      simp [Event.ofCampaign, ha, ih hacts]

/-- What a slot does is neither a PONG nor an END. -/
theorem quiet_emitSlot (c : SharedCfg) (kind : UInt8) :
    ∀ a ∈ (c.emitSlot kind).2, a ≠ .send .pong ∧ (Event.did a).isEnd = false := by
  have hkind : ∀ (c' : SharedCfg) (value : UInt32), ∀ a ∈ (c'.emitKind kind c.seq value).2,
      a ≠ .send .pong ∧ (Event.did a).isEnd = false := by
    intro c' value
    rcases kind_cases kind with h | rfl | rfl | rfl | rfl | h
    · rw [SharedCfg.emitKind_corrupt h]
      simp [SharedCfg.emitCorrupt, Event.isEnd, Msg.isEnd]
    · simp [SharedCfg.emitKind_drop, SharedCfg.emitDrop, Event.isEnd, Msg.isEnd]
    · simp [SharedCfg.emitKind_delay, SharedCfg.emitDelay, Event.isEnd, Msg.isEnd]
    · simp [SharedCfg.emitKind_replay, SharedCfg.emitReplay, Event.isEnd, Msg.isEnd]
    · simp [SharedCfg.emitKind_burst, SharedCfg.emitBurst, Event.isEnd, Msg.isEnd]
    · rw [SharedCfg.emitKind_clean h]
      simp [SharedCfg.emitClean, Event.isEnd, Msg.isEnd]
  obtain ⟨c', value, -, hacts⟩ := c.emitSlot_actions kind
  intro a ha
  rw [hacts] at ha
  rcases List.mem_append.mp ha with ha | ha
  · exact hkind c' value a ha
  · rw [List.mem_singleton.mp ha]
    exact ⟨by simp, rfl⟩

/-- The next call of the campaign that is running: a slot, or END behind the last one. -/
theorem Running.runNext_cases {trace since : List Event} {c : SharedCfg} {cfg : CampaignConfig}
    {k : ℕ} (h : Running trace c cfg since k) :
    (k < cfg.packets.toNat ∧ c.runNext.1 = false ∧
      ∀ a ∈ c.runNext.2.2, a ≠ .send .pong ∧ (Event.did a).isEnd = false) ∨
    (c.runNext.1 = true ∧ ∃ m, c.runNext.2.2 = [.send m] ∧ m ≠ .pong) := by
  obtain ⟨-, -, hcounts, hpackets⟩ := SharedCfg.calls_fresh cfg h.le
  rw [← h.state] at hcounts hpackets
  rcases Nat.lt_or_eq_of_le h.le with hlt | heq
  · have hrun := SharedCfg.runNext_of_lt (c := c) (by
      rw [hcounts.sent, hpackets]
      exact hlt)
    refine Or.inl ⟨hlt, by rw [hrun], ?_⟩
    rw [hrun]
    exact quiet_emitSlot _ _
  · have hend : c.packets ≤ c.sent := by
      rw [UInt16.le_iff_toNat_le, hcounts.sent, hpackets, heq]
    rw [SharedCfg.runNext, if_pos hend]
    exact Or.inr ⟨rfl, _, rfl, by simp⟩

/-- What the next call does continues the campaign, as long as no END has been sent. -/
theorem Running.permits {trace since : List Event} {c : SharedCfg} {cfg : CampaignConfig}
    {k : ℕ} (h : Running trace c cfg since k) {pre post : List Action} {a : Action}
    (hacts : c.runNext.2.2 = pre ++ a :: post)
    (hpre : ∀ x ∈ pre, x ≠ .send .pong ∧ (Event.did x).isEnd = false) :
    Permitted (trace ++ pre.map .did) (.did a) := by
  refine Or.inr ⟨cfg, since ++ pre.map .did, h.live.append ?_ ?_, ?_⟩
  · simp [Event.started]
  · intro e he
    obtain ⟨x, hx, rfl⟩ := List.mem_map.mp he
    exact (hpre x hx).2
  · have hnext : campaignUpTo cfg (k + 1) = campaignUpTo cfg k ++ pre ++ a :: post := by
      rw [campaignUpTo_succ, ← h.state, hacts, List.append_assoc]
    have hprefix := campaignUpTo_isPrefix cfg (Nat.succ_le_succ h.le)
    rw [List.filterMap_append, h.sofar, ofCampaign_did fun x hx => (hpre x hx).1]
    refine List.IsPrefix.trans ⟨post, ?_⟩ hprefix
    rw [Nat.succ_eq_add_one, hnext]
    simp

/-- Advancing the campaign keeps the invariant, and continues the campaign. -/
theorem keeps_advance : Keeps advanceRecorded OnCampaign Permitted where
  preserves trace cfg chunk hinv := by
    intro c' hc'
    cases cfg with
    | none => simp [advanceRecorded, advance] at hc'
    | some c =>
        obtain ⟨conf, since, k, hrunning⟩ := hinv c rfl
        rcases hrunning.runNext_cases with ⟨hlt, hmore, hquiet⟩ | ⟨hlast, -⟩
        · simp only [advanceRecorded, advance, hmore, Bool.false_eq_true, if_false,
            Option.mem_some_iff] at hc' ⊢
          refine ⟨conf, since ++ c.runNext.2.2.map .did, k + 1, hrunning.live.append ?_ ?_, ?_,
            hlt, ?_⟩
          · simp [Event.started]
          · intro e he
            obtain ⟨a, ha, rfl⟩ := List.mem_map.mp he
            exact (hquiet a ha).2
          · rw [← hc', SharedCfg.calls_add, ← hrunning.state]
            rfl
          · rw [List.filterMap_append, hrunning.sofar,
              ofCampaign_did fun a ha => (hquiet a ha).1, campaignUpTo_succ, ← hrunning.state]
        · simp [advanceRecorded, advance, hlast] at hc'
  safe trace cfg chunk hinv := by
    cases cfg with
    | none => exact safe_nil
    | some c =>
        obtain ⟨conf, since, k, hrunning⟩ := hinv c rfl
        intro pre e post hsplit
        obtain ⟨pre, rest, hacts, rfl, hrest⟩ := List.map_eq_append_iff.mp hsplit
        obtain ⟨a, post, rfl, rfl, rfl⟩ := List.map_eq_cons_iff.mp hrest
        refine hrunning.permits hacts ?_
        rcases hrunning.runNext_cases with ⟨-, -, hquiet⟩ | ⟨-, m, hlast, -⟩
        · exact fun x hx => hquiet x (hacts ▸ List.mem_append_left _ hx)
        · -- END is all that the last call sends
          change c.runNext.2.2 = _ at hacts
          rw [hlast] at hacts
          cases pre with
          | nil => simp
          | cons x pre => simp at hacts

/-- A round answers the messages of a chunk and makes a call for the campaign; both keep the
invariant. -/
theorem keeps_round : Keeps roundRecorded OnCampaign Permitted :=
  keeps_answer.run.andThen keeps_advance

/-! ### The protocol is followed -/

/-- In a permitted trace an accepted START comes between any two ENDs. -/
theorem exists_started_of_ends {pre mid post : List Event} {e e' : Event}
    (h : Safe Permitted (pre ++ e :: mid ++ e' :: post)) (he : e.isEnd = true)
    (he' : e'.isEnd = true) : ∃ s ∈ mid, s.started.isSome = true := by
  have hne : e.started = none := by
    cases e with
    | heard f => exact absurd he (by simp [Event.isEnd])
    | did a => rfl
  have hstops : e.stops = true := by
    cases e with
    | heard f => exact absurd he (by simp [Event.isEnd])
    | did a => exact he
  obtain ⟨cfg, since, ⟨⟨before, s, hsplit, hstart⟩, -, hrunning⟩⟩ :
      ∃ cfg since, Since (pre ++ e :: mid) cfg since := by
    have hpermitted := h _ _ post rfl
    cases e' with
    | heard f => exact absurd he' (by simp [Event.isEnd])
    | did a =>
        rcases hpermitted with rfl | ⟨cfg, since, hsince, -⟩
        · exact absurd he' (by simp [Event.isEnd, Msg.isEnd])
        · exact ⟨cfg, since, hsince⟩
  -- the first END comes before the last START, so that one is in between
  have hfirst : e ∉ since := fun hmem => by simp [hrunning e hmem] at hstops
  have hdiff : e ≠ s := fun heq => by simp [← heq, hne] at hstart
  refine ⟨s, ?_, by rw [hstart]; rfl⟩
  rcases List.append_eq_append_iff.mp hsplit with ⟨mid', rfl, hmid⟩ | ⟨mid', rfl, hmid⟩
  · cases mid' with
    | nil => exact absurd (List.cons.inj hmid).1 hdiff
    | cons x mid' =>
        obtain ⟨-, rfl⟩ := List.cons.inj hmid
        simp
  · cases mid' with
    | nil => exact absurd (List.cons.inj hmid).1.symm hdiff
    | cons x mid' =>
        obtain ⟨-, rfl⟩ := List.cons.inj hmid
        simp at hfirst

/-- PINGs and PONGs take turns, and every PING has its PONG. -/
def PingsAnswered (trace : List Event) : Prop :=
  trace.filterMap Event.pingPong =
    (List.replicate (trace.countP Event.isPing) [true, false]).flatten

/-- Traces in which every PING is answered can be put together. -/
theorem PingsAnswered.append {trace trace' : List Event} (h : PingsAnswered trace)
    (h' : PingsAnswered trace') : PingsAnswered (trace ++ trace') := by
  rw [PingsAnswered, List.filterMap_append, List.countP_append, h, h', List.replicate_add,
    List.flatten_append]

/-- Every control frame is answered before the next one. -/
theorem pingsAnswered_answer (cfg : Option SharedCfg) (f : Command) :
    PingsAnswered (answer cfg f).2 := by
  by_cases hping : f.kind = kPing
  · simp [PingsAnswered, answer, handle, hping, Event.pingPong, Event.isPing]
  · have hquiet : (handle cfg f).2 = [] := by
      simp only [handle, hping, if_false]
      split
      · split <;> rfl
      · split <;> rfl
    simp [PingsAnswered, answer, hquiet, Event.pingPong, Event.isPing, hping]

/-- The campaign sends no PONG. -/
theorem pingsAnswered_advance (cfg : Option SharedCfg) (chunk : List Command) :
    PingsAnswered (advanceRecorded cfg chunk).2 := by
  have hquiet : ∀ a ∈ (advance cfg).2, a ≠ .send .pong := by
    cases cfg with
    | none => simp [advance]
    | some c =>
        simp only [advance, SharedCfg.runNext]
        split
        · simp
        · exact fun a ha => (quiet_emitSlot _ _ a ha).1
  have hpongs : ((advance cfg).2.map .did).filterMap Event.pingPong = [] := by
    refine List.filterMap_eq_nil_iff.mpr fun e he => ?_
    obtain ⟨a, ha, rfl⟩ := List.mem_map.mp he
    exact if_neg (hquiet a ha)
  have hpings : ((advance cfg).2.map .did).countP Event.isPing = 0 := by
    simp [List.countP_map, Function.comp_def, Event.isPing]
  rw [PingsAnswered, advanceRecorded, hpongs, hpings]
  rfl

/-- **Every session follows the protocol.** For every sequence of chunks, and whatever
control frames are in them: every PING is answered by exactly one PONG, before the next
PING; whatever else is done continues the campaign of the last START accepted, which has
been neither aborted nor ended since, and all that is done for it is the beginning of a
fresh campaign; and a START is accepted between any two ENDs. -/
theorem session_safe (chunks : List (List Command)) :
    PingsAnswered (session chunks).2 ∧ Safe Permitted (session chunks).2 ∧
    ∀ pre e mid e' post, (session chunks).2 = pre ++ e :: mid ++ e' :: post →
      e.isEnd = true → e'.isEnd = true → ∃ s ∈ mid, s.started.isSome = true := by
  have hsafe : Safe Permitted (session chunks).2 :=
    keeps_round.safe_run (fun c hc => absurd hc (by simp)) chunks
  refine ⟨?_, hsafe, fun pre e mid e' post htrace he he' => ?_⟩
  · have hnil : PingsAnswered [] := rfl
    have happend := fun as bs (h : PingsAnswered as) (h' : PingsAnswered bs) => h.append h'
    refine run_induction hnil happend (fun cfg chunk => ?_) none chunks
    exact (run_induction hnil happend pingsAnswered_answer cfg chunk).append
      (pingsAnswered_advance _ chunk)
  · exact exists_started_of_ends (htrace ▸ hsafe) he he'

end FaultForge
