import Mathlib.Logic.Relation
import FaultForge.Injector

/-!
# The Simulated Bench

The host's campaign and the thread of `open_sim` as two parties with two FIFO channels
between them: the outbound channel carries the chunks that the host sends, the inbound
channel the messages of the injector. The parties interleave freely (`Step`); a party
blocks on an empty channel it reads and on a full channel it writes.

A round of the injector thread starts when `blocking_recv` returns a chunk. It handles the
frames of the chunk and then advances the campaign by a single slot, after which the
thread waits for the next chunk. The host sends one chunk, START, and then only listens.
So a campaign that has a slot to run stops behind it: the injector waits for the host and
the host for the injector.

A chunk stands here for the frames that the injector's parser takes out of it.

## Main results

* `deadlock_of_packets`: every campaign with a packet reaches a deadlock.
* `deadlockFree_iff`: the bench is free of deadlocks iff the campaign has no packets.
-/

namespace FaultForge

/-! ### The injector thread -/

/-- A control frame as the injector's parser delivers it: kind and payload bytes. -/
structure Command where
  kind : UInt8
  payload : List UInt8
deriving DecidableEq

/-- The START frame that `run` sends. -/
def Command.start (cfg : CampaignConfig) : Command := ⟨kStart, startPayload cfg⟩

/-- The `match` of the injector thread on a control frame. -/
def handle (cfg : Option SharedCfg) (f : Command) : Option SharedCfg × List Action :=
  if f.kind = kPing then (cfg, [.send .pong])
  else if f.kind = kStart then
    match decodeStart f.payload with
    | some c => (some (.ofConfig c), [])
    | none => (cfg, [])
  else if f.kind = kAbort then (none, [])
  else (cfg, [])

/-- Handle the frames of a chunk in order. -/
def handleAll : Option SharedCfg → List Command → Option SharedCfg × List Action
  | cfg, [] => (cfg, [])
  | cfg, f :: fs =>
      let rest := handleAll (handle cfg f).1 fs
      (rest.1, (handle cfg f).2 ++ rest.2)

/-- Advance the campaign, if one is running, by one call of `run_next`. -/
def advance : Option SharedCfg → Option SharedCfg × List Action
  | some c => (if c.runNext.1 then none else some c.runNext.2.1, c.runNext.2.2)
  | none => (none, [])

/-- One round of the injector thread, from a chunk to the next `blocking_recv`. -/
def round (cfg : Option SharedCfg) (chunk : List Command) : Option SharedCfg × List Action :=
  let handled := handleAll cfg chunk
  let advanced := advance handled.1
  (advanced.1, handled.2 ++ advanced.2)

/-- A chunk from which the injector accepts a START. -/
def Accepts (chunk : List Command) : Prop :=
  ∃ f ∈ chunk, f.kind = kStart ∧ (decodeStart f.payload).isSome = true

instance (chunk : List Command) : Decidable (Accepts chunk) :=
  inferInstanceAs (Decidable (∃ f ∈ chunk, _))

/-! ### The two parties -/

/-- Where the host's campaign stands. -/
inductive Host where
  /-- About to send START. -/
  | starting
  /-- Waiting for a frame. -/
  | receiving
  /-- Past END. -/
  | done
deriving DecidableEq

/-- The state of the bench. The injector thread either waits for a chunk (`todo = none`) or
has the rest of a round's actions to do. `accepted` records that a START was accepted. -/
structure Bench where
  host : Host
  outbound : List (List Command)
  cfg : Option SharedCfg
  todo : Option (List Action)
  inbound : List Msg
  accepted : Bool

/-- Room in the channel to the injector, `mpsc::channel(16)`. -/
def outboundRoom : ℕ := 16
/-- Room in the channel from the injector, `mpsc::channel(64)`. -/
def inboundRoom : ℕ := 64

/-- The bench when the handshake is over and the campaign is launched. -/
def Bench.initial : Bench where
  host := .starting
  outbound := []
  cfg := none
  todo := none
  inbound := []
  accepted := false

/-- The END message. -/
def Msg.isEnd : Msg → Bool
  | .campaignEnd _ _ => true
  | _ => false

/-- One step of one party, for a campaign with the given configuration. -/
inductive Step (cfg : CampaignConfig) : Bench → Bench → Prop
  /-- The host sends START. -/
  | start {s : Bench} : s.host = .starting → s.outbound.length < outboundRoom →
      Step cfg s { s with host := .receiving, outbound := s.outbound ++ [[.start cfg]] }
  /-- The injector thread receives a chunk. -/
  | wake {s : Bench} {chunk : List Command} {rest : List (List Command)} :
      s.todo = none → s.outbound = chunk :: rest →
      Step cfg s
        { s with
          outbound := rest
          cfg := (round s.cfg chunk).1
          todo := some (round s.cfg chunk).2
          accepted := s.accepted || decide (Accepts chunk) }
  /-- The injector thread sends a message. -/
  | emit {s : Bench} {m : Msg} {acts : List Action} :
      s.todo = some (.send m :: acts) → s.inbound.length < inboundRoom →
      Step cfg s { s with todo := some acts, inbound := s.inbound ++ [m] }
  /-- The injector thread sleeps. -/
  | sleep {s : Bench} {ms : ℕ} {acts : List Action} : s.todo = some (.sleep ms :: acts) →
      Step cfg s { s with todo := some acts }
  /-- The injector thread goes back to `blocking_recv`. -/
  | block {s : Bench} : s.todo = some [] → Step cfg s { s with todo := none }
  /-- The host receives a message, and leaves its loop on END. -/
  | receive {s : Bench} {m : Msg} {rest : List Msg} :
      s.host = .receiving → s.inbound = m :: rest →
      Step cfg s { s with host := if m.isEnd then .done else .receiving, inbound := rest }

/-- The states that some interleaving reaches. -/
def Reachable (cfg : CampaignConfig) : Bench → Prop :=
  Relation.ReflTransGen (Step cfg) Bench.initial

/-- The campaign is unfinished, both channels are empty, and both parties wait. -/
structure Deadlock (s : Bench) : Prop where
  accepted : s.accepted = true
  host : s.host = .receiving
  outbound : s.outbound = []
  inbound : s.inbound = []
  todo : s.todo = none

/-- No interleaving of a campaign ends in a deadlock. -/
def DeadlockFree (cfg : CampaignConfig) : Prop :=
  ∀ s, Reachable cfg s → ¬ Deadlock s

/-! ### A campaign with packets -/

/-- The round that accepts START makes the first call of `run_next`. -/
theorem round_start (c : Option SharedCfg) (cfg : CampaignConfig) :
    round c [.start cfg] =
      (if (SharedCfg.ofConfig cfg).runNext.1 then none
        else some (SharedCfg.ofConfig cfg).runNext.2.1, (SharedCfg.ofConfig cfg).runNext.2.2) := by
  have hhandle : handle c (.start cfg) = (some (.ofConfig cfg), []) := by
    simp [handle, Command.start, decodeStart_startPayload, kStart, kPing]
  simp [round, handleAll, hhandle, advance]

/-- A chunk with START alone is accepted. -/
theorem accepts_start (cfg : CampaignConfig) : Accepts [.start cfg] :=
  ⟨_, List.mem_singleton_self _, rfl, by rw [Command.start, decodeStart_startPayload]; rfl⟩

/-- The host keeps listening while the injector does what is left of a round without
END. -/
theorem reaches_drained {cfg : CampaignConfig} {s : Bench} {acts : List Action}
    (hhost : s.host = .receiving) (hin : s.inbound = []) (htodo : s.todo = some acts)
    (hend : endFrames acts = []) :
    Relation.ReflTransGen (Step cfg) s { s with todo := some [] } := by
  induction acts generalizing s with
  | nil =>
      rw [show ({ s with todo := some [] } : Bench) = s by rw [← htodo]]
  | cons a acts ih =>
      cases a with
      | sleep ms =>
          have hrest : endFrames acts = [] := hend
          exact .head (.sleep htodo) (ih (s := { s with todo := some acts }) hhost hin rfl hrest)
      | send m =>
          have hm : m.isEnd = false ∧ endFrames acts = [] := by
            cases m with
            | campaignEnd packets faults => simp [endFrames] at hend
            | _ => exact ⟨rfl, hend⟩
          -- the message is received as soon as it is sent
          let sent : Bench := { s with todo := some acts, inbound := s.inbound ++ [m] }
          have hemit : Step cfg s sent := .emit htodo (by rw [hin]; decide)
          have hreceive : Step cfg sent
              { sent with host := if m.isEnd then .done else .receiving, inbound := [] } :=
            .receive hhost (by simp [sent, hin])
          have hback : ({ s with todo := some acts } : Bench) =
              { sent with host := if m.isEnd then .done else .receiving, inbound := [] } := by
            simp only [sent, hm.1, Bool.false_eq_true, if_false, ← hhost, ← hin]
          rw [← hback] at hreceive
          exact .head hemit (.head hreceive
            (ih (s := { s with todo := some acts }) hhost hin rfl hm.2))

/-- **Every campaign with a packet reaches a deadlock**: after its first slot the injector
waits for a chunk that the host never sends. -/
theorem deadlock_of_packets {cfg : CampaignConfig} (h : cfg.packets ≠ 0) :
    ∃ s, Reachable cfg s ∧ Deadlock s := by
  have hpos : 0 < cfg.packets.toNat :=
    Nat.pos_of_ne_zero fun h0 => h (UInt16.toNat_inj.mp h0)
  have hend : endFrames (round none [.start cfg]).2 = [] := by
    rw [round_start, SharedCfg.runNext_of_lt (c := .ofConfig cfg) hpos]
    exact SharedCfg.endFrames_emitSlot (SharedCfg.ofConfig cfg).pick.2
      (SharedCfg.ofConfig cfg).pick.1
  generalize hround : round none [.start cfg] = r at hend
  let started : Bench := { Bench.initial with host := .receiving, outbound := [[.start cfg]] }
  let woken : Bench :=
    { started with
      outbound := []
      cfg := r.1
      todo := some r.2
      accepted := true }
  have hstart : Step cfg Bench.initial started := Step.start rfl (by decide)
  have hwake : Step cfg started woken := by
    have hstep : Step cfg started
        { started with
          outbound := []
          cfg := (round none [.start cfg]).1
          todo := some (round none [.start cfg]).2
          accepted := false || decide (Accepts [.start cfg]) } := .wake rfl rfl
    rwa [decide_eq_true (accepts_start cfg), hround] at hstep
  have hdrain : Relation.ReflTransGen (Step cfg) woken { woken with todo := some [] } :=
    reaches_drained rfl rfl rfl hend
  refine ⟨{ woken with todo := none }, ?_, ⟨rfl, rfl, rfl, rfl, rfl⟩⟩
  exact .head hstart (.head hwake (hdrain.tail (.block rfl)))

/-! ### A campaign without packets -/

/-- Once START is accepted, END is on its way to the host or has arrived; until the host
has sent START nothing is accepted, and it sends nothing else. -/
structure EndAhead (cfg : CampaignConfig) (s : Bench) : Prop where
  outbound : ∀ chunk ∈ s.outbound, chunk = [.start cfg]
  ahead : s.accepted = true →
    s.host = .done ∨ (∃ m ∈ s.inbound, m.isEnd = true) ∨
      ∃ acts, s.todo = some acts ∧ ∃ m, Action.send m ∈ acts ∧ m.isEnd = true

/-- Without packets the round that accepts START sends END. -/
theorem end_mem_round {cfg : CampaignConfig} (hp : cfg.packets = 0) (c : Option SharedCfg) :
    ∃ m, Action.send m ∈ (round c [.start cfg]).2 ∧ m.isEnd = true := by
  have hrun : (SharedCfg.ofConfig cfg).runNext =
      (true, .ofConfig cfg, [.send (.campaignEnd cfg.packets 0)]) := by
    rw [SharedCfg.runNext, if_pos (by simp [SharedCfg.ofConfig, hp])]
    rfl
  rw [round_start, hrun]
  exact ⟨_, List.mem_singleton_self _, rfl⟩

/-- The messages on their way to the host: those in the channel, and those that the injector
thread has yet to send in its round. -/
def Bench.pending (s : Bench) : List Msg :=
  s.inbound ++ (s.todo.getD []).filterMap fun
    | .send m => some m
    | .sleep _ => none

/-- END is on its way iff it is in the channel or among what the injector has still to do. -/
theorem exists_end_pending_iff {s : Bench} :
    (∃ m ∈ s.pending, m.isEnd = true) ↔ (∃ m ∈ s.inbound, m.isEnd = true) ∨
      ∃ acts, s.todo = some acts ∧ ∃ m, Action.send m ∈ acts ∧ m.isEnd = true := by
  have hsend : ∀ acts : List Action, ∀ m,
      m ∈ (acts.filterMap fun | .send m => some m | .sleep _ => none) ↔ Action.send m ∈ acts := by
    intro acts m
    rw [List.mem_filterMap]
    constructor
    · rintro ⟨a, ha, hm⟩
      cases a with
      | send m' => exact Option.some.inj hm ▸ ha
      | sleep ms => simp at hm
    · exact fun h => ⟨_, h, rfl⟩
  cases htodo : s.todo with
  | none => simp [Bench.pending, htodo]
  | some acts => simp [Bench.pending, htodo, hsend, or_and_right, exists_or]

/-- **One step** keeps END ahead. What the injector thread does moves messages along, and
takes none away. -/
theorem EndAhead.step {cfg : CampaignConfig} {s s' : Bench} (hp : cfg.packets = 0)
    (hs : EndAhead cfg s) (h : Step cfg s s') : EndAhead cfg s' := by
  obtain ⟨hout, hahead⟩ := hs
  simp only [← exists_end_pending_iff] at hahead
  have hmoved : s'.host = s.host → s'.accepted = s.accepted → s'.pending = s.pending →
      s'.accepted = true → s'.host = .done ∨ (∃ m ∈ s'.inbound, m.isEnd = true) ∨
        ∃ acts, s'.todo = some acts ∧ ∃ m, Action.send m ∈ acts ∧ m.isEnd = true := by
    intro hhost hacc hpending
    rw [← exists_end_pending_iff, hhost, hacc, hpending]
    exact hahead
  cases h with
  | start hhost _ =>
      refine ⟨fun chunk hchunk => ?_, fun hacc => ?_⟩
      · rcases List.mem_append.mp hchunk with hchunk | hchunk
        · exact hout chunk hchunk
        · exact List.mem_singleton.mp hchunk
      · rcases hahead hacc with hdone | hpending
        · exact nomatch hhost.symm.trans hdone
        · exact Or.inr (exists_end_pending_iff.mp hpending)
  | @wake chunk rest _ hchunk =>
      have hstart : chunk = [.start cfg] := hout chunk (by rw [hchunk]; exact List.mem_cons_self ..)
      refine ⟨fun c hc => hout c (by rw [hchunk]; exact List.mem_cons_of_mem _ hc), fun _ => ?_⟩
      rw [hstart]
      exact Or.inr (Or.inr ⟨_, rfl, end_mem_round hp s.cfg⟩)
  | @emit m acts htodo _ => exact ⟨hout, hmoved rfl rfl (by simp [Bench.pending, htodo])⟩
  | @sleep ms acts htodo => exact ⟨hout, hmoved rfl rfl (by simp [Bench.pending, htodo])⟩
  | block htodo => exact ⟨hout, hmoved rfl rfl (by simp [Bench.pending, htodo])⟩
  | @receive m rest hhost hin =>
      refine ⟨hout, fun hacc => ?_⟩
      rcases hahead hacc with hdone | ⟨e, he, hend⟩
      · exact nomatch hhost.symm.trans hdone
      · rw [Bench.pending, hin, List.cons_append] at he
        rcases List.mem_cons.mp he with rfl | he
        · exact Or.inl (if_pos hend)
        · exact Or.inr (exists_end_pending_iff.mp ⟨e, he, hend⟩)

/-- **Every run** of a campaign without packets keeps END ahead. -/
theorem Reachable.endAhead {cfg : CampaignConfig} {s : Bench} (hp : cfg.packets = 0)
    (h : Reachable cfg s) : EndAhead cfg s := by
  induction h with
  | refl => exact ⟨by simp [Bench.initial], by simp [Bench.initial]⟩
  | tail _ hstep ih => exact ih.step hp hstep

/-- **The bench is free of deadlocks iff the campaign has no packets.** -/
theorem deadlockFree_iff (cfg : CampaignConfig) : DeadlockFree cfg ↔ cfg.packets = 0 := by
  constructor
  · intro hfree
    by_contra hp
    obtain ⟨s, hreach, hdead⟩ := deadlock_of_packets hp
    exact hfree s hreach hdead
  · intro hp s hreach hdead
    rcases (hreach.endAhead hp).ahead hdead.accepted with hdone | ⟨e, he, -⟩ | ⟨acts, hacts, -⟩
    · exact nomatch hdead.host.symm.trans hdone
    · rw [hdead.inbound] at he
      exact absurd he List.not_mem_nil
    · rw [hdead.todo] at hacts
      exact absurd hacts (by simp)

/-- A campaign with the command line's defaults reaches a deadlock. -/
theorem default_campaign_deadlocks :
    ¬ DeadlockFree ⟨42, 1500, 5, ⟨[8, 8, 8, 8, 8, 8, 0], rfl⟩⟩ := by
  intro hfree
  have hp : (⟨42, 1500, 5, ⟨[8, 8, 8, 8, 8, 8, 0], rfl⟩⟩ : CampaignConfig).packets ≠ 0 := by
    decide
  obtain ⟨s, hreach, hdead⟩ := deadlock_of_packets hp
  exact hfree s hreach hdead

end FaultForge
