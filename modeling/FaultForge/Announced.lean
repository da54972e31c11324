import FaultForge.Flawless
import FaultForge.Report

/-!
# Announcements that Arrive

The report of a campaign has a row for every ground truth that the host has collected, and the
host collects them from the FAULT frames that its parser lets through. On a link on which nothing
goes wrong, and as long as neither a checksum nor a junk byte happens to be a sync byte, the rows
are those of the announced faults whose frame passes, in order (`rows_of_flawless_campaign`):
none is made up, none is counted twice, and the count of the injected faults is at most the one
that END carries, which is that of all announced faults.

The bytes of a campaign are those of its messages one after the other, and the parser is empty
between any two of them (`Msg.feeds_bytes`). So the host is given the outcomes of each message
by itself, and what it does with them is settled message by message (`truths_receive`).

## Main results

* `truths_receive`: which announcements the loop of the campaign collects.
* `rows_of_flawless_campaign`: the rows of a report.
-/

namespace FaultForge

open Transducer

/-! ### The parser on messages -/

/-- Without sync bytes, every byte is garbage by itself. -/
theorem feeds_of_no_sync {w : List UInt8} (hw : sync ∉ w) :
    feeds settle [] w = ([], List.replicate w.length (some .garbage)) := by
  induction w with
  | nil => rfl
  | cons b w ih =>
      obtain ⟨hb, hw⟩ := not_or.mp fun h => hw (List.mem_cons.mpr h)
      have hgarbage : settle ([] ++ [b]) = some .garbage := by simp [settle, Ne.symm hb]
      rw [feeds, feed_some hgarbage, ih hw]
      rfl

namespace Msg

/-- No byte of the message is a sync byte that does not begin a frame, as far as the parser
looks: neither the checksum of a frame nor a junk byte. -/
def Plain (m : Msg) : Prop :=
  match m.sentFrame with
  | some f => f.Apart
  | none => sync ∉ m.bytes

instance : DecidablePred Plain := fun m => by
  unfold Plain
  split <;> infer_instance

/-- What the parser reports of a message. -/
def reports (m : Msg) : List Decoded :=
  match m.sentFrame with
  | some f => f.reports
  | none => List.replicate m.bytes.length .garbage

/-- The bytes of a message that is a frame. -/
theorem bytes_of_sentFrame {m : Msg} {f : Frame} (h : m.sentFrame = some f) :
    m.bytes = f.bytes := by
  cases m with
  | junk bytes => exact nomatch h
  | _ => obtain rfl := Option.some.inj h; rfl

/-- **One message**: the parser reports it, and is empty behind it. -/
theorem feeds_bytes {m : Msg} (h : m.Plain) :
    (feeds settle [] m.bytes).1 = [] ∧
      (feeds settle [] m.bytes).2.reduceOption = m.reports := by
  rw [Plain] at h
  rw [reports]
  cases hframe : m.sentFrame with
  | some f =>
      rw [hframe] at h
      have hone := Frame.feeds_frames (List.forall_mem_singleton.mpr h)
      rw [List.flatMap_singleton, List.flatMap_singleton] at hone
      rwa [bytes_of_sentFrame hframe]
  | none =>
      rw [hframe] at h
      rw [feeds_of_no_sync h]
      refine ⟨rfl, ?_⟩
      simp [List.reduceOption]

/-- The frames that the host is given for a message. -/
def images (m : Msg) : List DuFrame :=
  m.reports.map DuFrame.ofDecoded

/-- A stream of messages. -/
theorem feeds_messages {ms : List Msg} (h : ∀ m ∈ ms, m.Plain) :
    (feeds settle [] (ms.flatMap bytes)).1 = [] ∧
      (feeds settle [] (ms.flatMap bytes)).2.reduceOption = ms.flatMap reports := by
  induction ms with
  | nil => exact ⟨rfl, rfl⟩
  | cons m ms ih =>
      obtain ⟨hm, hms⟩ := List.forall_mem_cons.mp h
      obtain ⟨hpend, houts⟩ := feeds_bytes hm
      rw [List.flatMap_cons, List.flatMap_cons, feeds_append, hpend, List.reduceOption_append,
        houts, (ih hms).2]
      exact ⟨(ih hms).1, rfl⟩

/-- The parser task on a stream of messages, cut into chunks in any way. -/
theorem parseStream_messages {ms : List Msg} (h : ∀ m ∈ ms, m.Plain)
    {chunks : List (List UInt8)} (hcut : chunks.flatten = ms.flatMap bytes) :
    ∃ p, parseStream .new chunks = some (p, ms.flatMap images) := by
  obtain ⟨p, hrun, -, -⟩ :=
    FrameParser.push_simulates.run (ms.flatMap bytes) FrameParser.ready_new
  refine ⟨p, ?_⟩
  have hnew : FrameParser.new.run (ms.flatMap bytes) =
      some (p, (feeds settle [] (ms.flatMap bytes)).2) := hrun
  rw [Pipe.parseStream_eq, hcut, hnew, Option.map_some, Pipe.images, (feeds_messages h).2,
    List.map_flatMap]
  rfl

end Msg

/-! ### The loop of the campaign on messages -/

/-- The FAULT frame of an event: fault id, kind and sequence number. -/
def announcement (e : UInt32 × UInt8 × UInt16) : Frame :=
  ⟨kFault, faultPayload e.1 e.2.1 e.2.2, faultPayload_fits _ _ _⟩

/-- The fault that a message announces to the host: that of a FAULT frame that passes. -/
def Msg.announced : Msg → Option (UInt32 × UInt8 × UInt16)
  | fault faultId kind atSeq =>
      if (announcement (faultId, kind, atSeq)).Passes then some (faultId, kind, atSeq) else none
  | _ => none

/-- What a ground truth says about its fault. -/
def GroundTruth.fault (t : GroundTruth) : UInt32 × UInt8 × UInt16 :=
  (t.faultId, t.kind, t.atSeq)

variable {d : Dut} {truths : List GroundTruth}

/-- Frames that are all handed to the device under test change no truth. -/
theorem receive_processed {front : List (Clock × DuFrame)}
    (h : ∀ x ∈ front, dispatch x.2.kind = .process) (rest : List (Clock × DuFrame)) :
    receive d truths (front ++ rest) = receive (d.feed front) truths rest := by
  induction front generalizing d with
  | nil => rfl
  | cons x front ih =>
      obtain ⟨clock, f⟩ := x
      obtain ⟨hx, hfront⟩ := List.forall_mem_cons.mp h
      rw [List.cons_append, receive, hx, Dut.feed_cons]
      exact ih hfront

/-- A message that is neither FAULT nor END is handed to the device under test. -/
theorem dispatch_images {m : Msg}
    (h : ∀ f, m.sentFrame = some f → dispatch f.kind = .process) :
    ∀ f ∈ m.images, dispatch f.kind = .process := by
  intro f hf
  obtain ⟨o, ho, rfl⟩ := List.mem_map.mp hf
  rw [Msg.reports] at ho
  cases hframe : m.sentFrame with
  | none =>
      rw [hframe] at ho
      obtain ⟨-, rfl⟩ := List.mem_replicate.mp ho
      rfl
  | some g =>
      rw [hframe] at ho
      rcases List.mem_cons.mp ho with rfl | ho
      · rw [kind_verdict]
        exact h g hframe
      · obtain rfl := List.mem_singleton.mp ho
        rfl

/-- What the loop reads from the verdict on a FAULT frame. -/
theorem fromPayload_verdict (faultId : UInt32) (kind : UInt8) (atSeq : UInt16) (idx : UInt64)
    (now : Instant) {v : DuFrame}
    (hv : v = .ofDecoded (announcement (faultId, kind, atSeq)).verdict) :
    (GroundTruth.fromPayload (v.payload.toList.take v.len) idx now).map GroundTruth.fault =
      (Msg.fault faultId kind atSeq).announced := by
  subst hv
  rw [Msg.announced]
  split
  · next hpass =>
    have hread : (zeroPadded (faultPayload faultId kind atSeq)
        (faultPayload_fits _ _ _)).toList.take (faultPayload faultId kind atSeq).length =
        faultPayload faultId kind atSeq := List.take_left' rfl
    rw [Frame.verdict_of_passes hpass]
    exact congrArg (Option.map GroundTruth.fault)
      (hread ▸ fromPayload_faultPayload faultId kind atSeq idx now)
  · next hpass =>
    rw [Frame.verdict_of_not_passes hpass]
    rfl

/-- A FAULT frame with the garbage behind it: its announcement, if it passes, is collected. -/
theorem receive_announcement (faultId : UInt32) (kind : UInt8) (atSeq : UInt16)
    {front : List (Clock × DuFrame)}
    (hfront : front.map Prod.snd = (Msg.fault faultId kind atSeq).images)
    (rest : List (Clock × DuFrame)) :
    ∃ d' added, receive d truths (front ++ rest) = receive d' (truths ++ added) rest ∧
      added.map GroundTruth.fault = (Msg.fault faultId kind atSeq).announced.toList := by
  obtain ⟨⟨clock, v⟩, tail, rfl, hv, htail⟩ := List.map_eq_cons_iff.mp hfront
  obtain ⟨⟨clock', g⟩, last, rfl, rfl, hlast⟩ := List.map_eq_cons_iff.mp htail
  obtain rfl := List.map_eq_nil_iff.mp hlast
  have harm : dispatch v.kind = .truth := by
    rw [dispatch_eq_truth, show v = _ from hv]
    exact kind_verdict _
  have hread := fromPayload_verdict faultId kind atSeq d.frameIdx (clock 0) hv
  rw [List.cons_append, receive, harm, ← hread]
  simp only
  cases GroundTruth.fromPayload (v.payload.toList.take v.len) d.frameIdx (clock 0) with
  | some gt => exact ⟨_, [gt], receive_garbage clock', rfl⟩
  | none => exact ⟨_, [], by rw [List.append_nil]; exact receive_garbage clock', rfl⟩

/-- **Which announcements are collected**: those before END whose frame passes. -/
theorem truths_receive {ms : List Msg} {arrivals : List (Clock × DuFrame)}
    (harrive : arrivals.map Prod.snd = ms.flatMap Msg.images) :
    (receive d truths arrivals).2.map GroundTruth.fault =
      truths.map GroundTruth.fault ++
        (ms.takeWhile fun m => !m.isEnd).filterMap Msg.announced := by
  induction ms generalizing d truths arrivals with
  | nil =>
      obtain rfl := List.map_eq_nil_iff.mp harrive
      simp [receive]
  | cons m ms ih =>
      rw [List.flatMap_cons] at harrive
      obtain ⟨front, rest, rfl, hfront, hrest⟩ := List.map_eq_append_iff.mp harrive
      have hprocessed : m.announced = none → m.isEnd = false →
          (∀ f ∈ m.images, dispatch f.kind = .process) →
          (receive d truths (front ++ rest)).2.map GroundTruth.fault =
            truths.map GroundTruth.fault ++
              ((m :: ms).takeWhile fun m => !m.isEnd).filterMap Msg.announced := by
        intro hnone hend himages
        have hall : ∀ x ∈ front, dispatch x.2.kind = .process := fun x hx =>
          himages x.2 (hfront ▸ List.mem_map_of_mem hx)
        rw [receive_processed hall, ih hrest, List.takeWhile_cons_of_pos (by simp [hend]),
          List.filterMap_cons_none hnone]
      cases m with
      | pong =>
          exact hprocessed rfl rfl (dispatch_images (by rintro f ⟨⟩; rfl))
      | sensor seq value faultId =>
          exact hprocessed rfl rfl (dispatch_images (by rintro f ⟨⟩; rfl))
      | junk bytes => exact hprocessed rfl rfl (dispatch_images (by rintro f ⟨⟩))
      | fault faultId kind atSeq =>
          obtain ⟨d', added, hreceive, hadded⟩ := @receive_announcement d truths faultId kind
            atSeq front hfront rest
          rw [hreceive, ih hrest, List.map_append, hadded, List.append_assoc,
            List.takeWhile_cons_of_pos rfl, List.filterMap_cons]
          cases (Msg.fault faultId kind atSeq).announced <;> rfl
      | campaignEnd packets faults =>
          obtain ⟨⟨clock, v⟩, tail, rfl, hv, -⟩ := List.map_eq_cons_iff.mp hfront
          have harm : dispatch v.kind = .stop := by
            rw [dispatch_eq_stop, show v = _ from hv]
            exact kind_verdict _
          rw [List.cons_append, receive, harm, List.takeWhile_cons_of_neg (by simp [Msg.isEnd])]
          simp

/-! ### Whole campaigns -/

/-- The messages that the injector sends. -/
def sends (acts : List Action) : List Msg :=
  acts.filterMap fun
    | .send m => some m
    | .sleep _ => none

/-- The bytes of a campaign are those of its messages, one after the other. -/
theorem bytesOf_eq (acts : List Action) : bytesOf acts = (sends acts).flatMap Msg.bytes := by
  rw [sends, bytesOf]
  induction acts with
  | nil => rfl
  | cons a acts ih => cases a <;> simp [ih]

/-- The collected announcements are those of the FAULT events that pass. -/
theorem filterMap_announced_sends (acts : List Action) :
    (sends acts).filterMap Msg.announced =
      (faultEvents acts).filter fun e => decide (announcement e).Passes := by
  rw [sends, faultEvents, List.filterMap_filterMap, List.filter_filterMap]
  refine List.filterMap_congr fun a _ => ?_
  rcases a with (_ | _ | ⟨faultId, kind, atSeq⟩ | _ | _) | _
  case send.fault =>
    by_cases hpass : (announcement (faultId, kind, atSeq)).Passes <;>
      simp [Msg.announced, Option.filter, hpass]
  all_goals rfl

/-- Before END, a campaign sends no END. -/
theorem endFrames_campaignUpTo (cfg : CampaignConfig) {k : ℕ} (hk : k ≤ cfg.packets.toNat) :
    endFrames (campaignUpTo cfg k) = [] := by
  induction k with
  | zero => rfl
  | succ k ih =>
      obtain ⟨-, -, hcounts, hpackets⟩ := SharedCfg.calls_fresh cfg (Nat.le_of_succ_le hk)
      have hrun := SharedCfg.runNext_of_lt (c := ((SharedCfg.ofConfig cfg).calls k).1)
        (by rw [hcounts.sent, hpackets]; exact hk)
      rw [campaignUpTo_succ, hrun, endFrames, List.filterMap_append, ← endFrames, ← endFrames,
        ih (Nat.le_of_succ_le hk), SharedCfg.endFrames_emitSlot, List.append_nil]

/-- What a campaign sends before END, up to END. -/
theorem takeWhile_sends {acts : List Action} (hend : endFrames acts = []) {last : Msg}
    (hlast : last.isEnd = true) :
    (sends (acts ++ [.send last])).takeWhile (fun m => !m.isEnd) = sends acts := by
  have hopen : ∀ m ∈ sends acts, (!m.isEnd) = true := by
    intro m hm
    obtain ⟨a, ha, ham⟩ := List.mem_filterMap.mp hm
    rw [endFrames, List.filterMap_eq_nil_iff] at hend
    have hnone := hend a ha
    rcases a with m' | ms
    · obtain rfl := Option.some.inj ham
      cases m' with
      | campaignEnd packets faults => cases hnone
      | _ => rfl
    · cases ham
  rw [sends, List.filterMap_append, ← sends, List.takeWhile_append_of_pos hopen]
  simp [hlast]

/-- The rows of a report are about its truths. -/
theorem rows_run (opts : Opts) (arrivals : List (Clock × DuFrame)) :
    (run opts arrivals).rows.map (fun r => (r.faultId, r.kind, r.atSeq)) =
      (receive (.new opts.cadenceMs) [] arrivals).2.map GroundTruth.fault := by
  have hfst := @matchLoop_fst opts.cadenceMs
    (receive (.new opts.cadenceMs) [] arrivals).1.detections
    (receive (.new opts.cadenceMs) [] arrivals).2 0
  rw [run, rows_score, List.map_map, ← hfst, List.map_map, hfst]
  exact List.map_congr_left fun r _ => by simp [GroundTruth.fault]

/-- **The rows of a report.** A campaign goes over a link on which nothing goes wrong, cut into
chunks in any way, and neither a checksum nor a junk byte is a sync byte. Then the rows of the
report are those of the announced faults whose FAULT frame passes, in order, and their number is
the count of the injected faults; END carries the number of all announced faults, passed or not,
which is no smaller. -/
theorem rows_of_flawless_campaign (opts : Opts) (cfg : CampaignConfig)
    (hplain : ∀ m ∈ sends (freshCampaign cfg), m.Plain) {chunks : List (List UInt8)}
    (hcut : chunks.flatten = bytesOf (freshCampaign cfg)) :
    ∃ p frames faults, parseStream .new chunks = some (p, frames) ∧
      endFrames (freshCampaign cfg) = [(cfg.packets, faults)] ∧
      faults.toNat = (faultEvents (freshCampaign cfg)).length ∧
      ∀ arrivals : List (Clock × DuFrame), arrivals.map Prod.snd = frames →
        (run opts arrivals).rows.map (fun r => (r.faultId, r.kind, r.atSeq)) =
          (faultEvents (freshCampaign cfg)).filter (fun e => decide (announcement e).Passes) ∧
        (run opts arrivals).injected.toNat = (run opts arrivals).rows.length ∧
        (run opts arrivals).injected.toNat ≤ faults.toNat := by
  obtain ⟨p, hparse⟩ := Msg.parseStream_messages hplain (hcut.trans (bytesOf_eq _))
  obtain ⟨faults, hfresh, hfaults, hpackets⟩ := freshCampaign_eq cfg
  have hopen := endFrames_campaignUpTo cfg (le_refl cfg.packets.toNat)
  have hevents : faultEvents (freshCampaign cfg) =
      faultEvents (campaignUpTo cfg cfg.packets.toNat) := by
    rw [hfresh, faultEvents, List.filterMap_append]
    exact List.append_nil _
  refine ⟨p, _, faults, hparse, ?_, by rw [hevents, hfaults], fun arrivals harrive => ?_⟩
  · rw [hfresh, endFrames, List.filterMap_append, ← endFrames, hopen]
    rfl
  · have htruths := @truths_receive (.new opts.cadenceMs) [] _ _ harrive
    rw [hfresh, takeWhile_sends hopen rfl, filterMap_announced_sends, List.map_nil,
      List.nil_append] at htruths
    have hrows := rows_run opts arrivals
    rw [htruths, ← hevents] at hrows
    have hlength := congrArg List.length hrows
    have hle := List.length_filter_le (fun e => decide (announcement e).Passes)
      (faultEvents (freshCampaign cfg))
    rw [hevents, ← hfaults, ← hevents, ← hlength, List.length_map] at hle
    have hshort : (receive (.new opts.cadenceMs) [] arrivals).2.length < 2 ^ 16 := by
      rw [← List.length_map, htruths, ← hevents, ← hlength, List.length_map]
      exact (hle.trans hpackets).trans_lt cfg.packets.toNat_lt
    obtain ⟨hinjected, -, -⟩ := @counters_score opts
      (receive (.new opts.cadenceMs) [] arrivals).1.detections _ hshort
    have hcount : (run opts arrivals).injected.toNat = (run opts arrivals).rows.length := hinjected
    exact ⟨hrows, hcount, hcount.trans_le hle⟩

/-- A campaign of four packets with bursts and drops. -/
theorem rows_of_four_packets :
    let cfg : CampaignConfig := ⟨7, 4, 5, ⟨[1, 0, 1, 0, 0, 3, 0], rfl⟩⟩
    ∃ p frames faults,
      parseStream .new [bytesOf (freshCampaign cfg)] = some (p, frames) ∧
      endFrames (freshCampaign cfg) = [(cfg.packets, faults)] ∧
      faults.toNat = (faultEvents (freshCampaign cfg)).length ∧
      ∀ arrivals : List (Clock × DuFrame), arrivals.map Prod.snd = frames →
        (run ⟨true, 7, 4, 5, "fuzz", true⟩ arrivals).rows.map
            (fun r => (r.faultId, r.kind, r.atSeq)) =
          (faultEvents (freshCampaign cfg)).filter (fun e => decide (announcement e).Passes) ∧
        (run ⟨true, 7, 4, 5, "fuzz", true⟩ arrivals).injected.toNat =
          (run ⟨true, 7, 4, 5, "fuzz", true⟩ arrivals).rows.length ∧
        (run ⟨true, 7, 4, 5, "fuzz", true⟩ arrivals).injected.toNat ≤ faults.toNat :=
  rows_of_flawless_campaign _ _ (by decide +kernel) (List.flatten_singleton)

end FaultForge
