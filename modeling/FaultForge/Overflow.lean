import FaultForge.Scoring

/-!
# Counter Overflow in the Report

The counters of the aggregation are 16 bits wide, and each of its rounds adds one to some
of them: the injected faults, the detected and the physical ones, and the two counts of the
fault's kind. `Fits` says of a round that none of these additions wraps. The rounds are as
many as the ground truths that the receive loop has collected, and that loop takes every
FAULT frame with a whole payload (`length_truths_receive`), without a bound.

No counter exceeds the number of rounds so far (`Bounded`), and the count of the injected
faults equals it; so the report overflows exactly from the 65536th collected truth on.

## Main results

* `Bounded.foldl_add`: no counter exceeds the number of rounds.
* `reportFits_iff`: when no counter of the report overflows.
-/

namespace FaultForge

/-! ### What the loop collects -/

/-- The frame adds a ground truth: a FAULT frame with a whole payload. -/
def admits (f : DuFrame) : Bool :=
  decide (f.kind = kFault) && decide (faultPayloadLen ≤ f.len)

/-- Reading a payload succeeds iff it is whole. -/
theorem isSome_fromPayload (f : DuFrame) (frameIdx : UInt64) (now : Instant) :
    (GroundTruth.fromPayload (f.payload.toList.take f.len) frameIdx now).isSome =
      decide (faultPayloadLen ≤ f.len) := by
  have hlen : (f.payload.toList.take f.len).length = f.len := by
    rw [List.length_take, f.payload.toList_length, Nat.min_eq_left f.fits]
  unfold GroundTruth.fromPayload
  split
  · next hshort =>
    rw [hlen] at hshort
    simpa using hshort
  · next hwhole =>
    rw [hlen] at hwhole
    simpa using hwhole

/-- **The loop collects a truth for every admitted frame** before the end of the campaign. -/
theorem length_truths_receive (dut : Dut) (truths : List GroundTruth)
    (frames : List (Clock × DuFrame)) :
    (receive dut truths frames).2.length =
      truths.length + (received frames).countP fun x => admits x.2 := by
  induction frames generalizing dut truths with
  | nil => simp [receive, received]
  | cons x fs ih =>
      obtain ⟨clock, f⟩ := x
      have htruth := @dispatch_eq_truth f.kind
      cases harm : dispatch f.kind with
      | process =>
          have hkind : f.kind ≠ kFault := fun h => by simp [htruth.mpr h] at harm
          simp [receive, received, harm, admits, hkind, ih]
      | stop =>
          have hkind : f.kind ≠ kFault := fun h => by simp [htruth.mpr h] at harm
          simp [receive, received, harm, admits, hkind]
      | truth =>
          have hadmits : admits f =
              (GroundTruth.fromPayload (f.payload.toList.take f.len) dut.frameIdx
                (clock 0)).isSome := by
            rw [isSome_fromPayload, admits, decide_eq_true (htruth.mp harm), Bool.true_and]
          simp only [receive, received, harm, reduceCtorEq, if_false, List.countP_cons, hadmits]
          cases GroundTruth.fromPayload (f.payload.toList.take f.len) dut.frameIdx (clock 0) with
          | none => simp [ih]
          | some gt =>
              simp only [ih, List.length_append, List.length_singleton, Option.isSome_some, if_true]
              omega

/-! ### The counters -/

/-- None of the additions of a round wraps: the count of the injected faults, those of the
detected and the physical ones if the round adds to them, and the counts of the kind. -/
structure Fits (acc : Tally) (r : GroundTruth × Option Match) : Prop where
  injected : acc.injected.toNat + 1 < 2 ^ 16
  detected : r.2.isSome = true → acc.detected.toNat + 1 < 2 ^ 16
  physical : (expectedDets r.1.kind).isEmpty = true → acc.physical.toNat + 1 < 2 ^ 16
  kindInjected : ∀ e ∈ acc.counts, e.kind = r.1.kind → e.injected.toNat + 1 < 2 ^ 16
  kindDetected : ∀ e ∈ acc.counts, e.kind = r.1.kind → r.2.isSome = true →
    e.detected.toNat + 1 < 2 ^ 16

/-- The loop runs through without an overflow: every round fits. -/
def NoOverflow (rs : List (GroundTruth × Option Match)) : Prop :=
  ∀ before r after, rs = before ++ r :: after → Fits (before.foldl Tally.add Tally.empty) r

/-- After `n` rounds no counter exceeds `n`, and the injected faults are `n`. -/
structure Bounded (n : ℕ) (acc : Tally) : Prop where
  injected : acc.injected.toNat = n
  detected : acc.detected.toNat ≤ n
  physical : acc.physical.toNat ≤ n
  counts : ∀ e ∈ acc.counts, e.injected.toNat ≤ n ∧ e.detected.toNat ≤ n

/-- Before the first round all counters are zero. -/
theorem Bounded.empty : Bounded 0 Tally.empty :=
  ⟨rfl, le_rfl, le_rfl, nofun⟩

variable {n : ℕ} {acc : Tally}

/-- A counter that is at most `n` is at most `n + 1` after an addition. -/
theorem toNat_add_one_le {v : UInt16} (hv : v.toNat ≤ n) : (v + 1).toNat ≤ n + 1 := by
  rw [UInt16.toNat_add]
  exact (Nat.mod_le _ _).trans (Nat.succ_le_succ hv)

/-- Counting a round raises the counts of one kind by at most one. -/
theorem le_of_mem_countEntry {kind : UInt8} {ok : Bool} {es : List KindStat}
    (hes : ∀ e ∈ es, e.injected.toNat ≤ n ∧ e.detected.toNat ≤ n) :
    ∀ e ∈ countEntry kind ok es, e.injected.toNat ≤ n + 1 ∧ e.detected.toNat ≤ n + 1 := by
  have hone : (1 : UInt16).toNat ≤ n + 1 ∧ (if ok then 1 else 0 : UInt16).toNat ≤ n + 1 := by
    cases ok <;> simp
  have hweak : ∀ e ∈ es, e.injected.toNat ≤ n + 1 ∧ e.detected.toNat ≤ n + 1 :=
    fun e he => ⟨(hes e he).1.trans (Nat.le_succ n), (hes e he).2.trans (Nat.le_succ n)⟩
  induction es with
  | nil =>
      intro e he
      obtain rfl := List.mem_singleton.mp he
      exact hone
  | cons e' es ih =>
      obtain ⟨hinj, hdet⟩ := hes e' (List.mem_cons_self ..)
      intro e he
      rw [countEntry] at he
      split at he
      · rcases List.mem_cons.mp he with rfl | he
        · exact hone
        · exact hweak e he
      · split at he
        · rcases List.mem_cons.mp he with rfl | he
          · refine ⟨toNat_add_one_le hinj, ?_⟩
            dsimp only
            split
            · exact toNat_add_one_le hdet
            · exact hdet.trans (Nat.le_succ n)
          · exact hweak e (List.mem_cons_of_mem _ he)
        · rcases List.mem_cons.mp he with rfl | he
          · exact hweak e (List.mem_cons_self ..)
          · exact ih (fun e he => hes e (List.mem_cons_of_mem _ he))
              (fun e he => hweak e (List.mem_cons_of_mem _ he)) e he

/-- One round. -/
theorem Bounded.add (h : Bounded n acc) (hn : n + 1 < 2 ^ 16) (r : GroundTruth × Option Match) :
    Bounded (n + 1) (acc.add r) where
  injected := by
    have hinj := h.injected
    simp only [Tally.add, UInt16.toNat_add, hinj]
    exact Nat.mod_eq_of_lt hn
  detected := by
    simp only [Tally.add]
    split
    · exact toNat_add_one_le h.detected
    · exact h.detected.trans (Nat.le_succ n)
  physical := by
    simp only [Tally.add]
    split
    · exact h.physical.trans (Nat.le_succ n)
    · exact toNat_add_one_le h.physical
  counts := le_of_mem_countEntry h.counts

/-- **All rounds**: as long as they can be counted, no counter exceeds their number. -/
theorem Bounded.foldl_add (h : Bounded n acc) (rs : List (GroundTruth × Option Match))
    (hn : n + rs.length < 2 ^ 16) : Bounded (n + rs.length) (rs.foldl Tally.add acc) := by
  induction rs generalizing n acc with
  | nil => exact h
  | cons r rs ih =>
      rw [List.length_cons, Nat.add_comm rs.length, ← Nat.add_assoc] at hn ⊢
      exact ih (h.add (by omega) r) hn

/-- A round fits when it is not the 65536th. -/
theorem Bounded.fits (h : Bounded n acc) (hn : n + 1 < 2 ^ 16) (r : GroundTruth × Option Match) :
    Fits acc r where
  injected := h.injected ▸ hn
  detected _ := (Nat.succ_le_succ h.detected).trans_lt hn
  physical _ := (Nat.succ_le_succ h.physical).trans_lt hn
  kindInjected e he _ := (Nat.succ_le_succ (h.counts e he).1).trans_lt hn
  kindDetected e he _ _ := (Nat.succ_le_succ (h.counts e he).2).trans_lt hn

/-- **When the loop runs through without an overflow**: iff it has at most 65535 rounds. -/
theorem noOverflow_iff {rs : List (GroundTruth × Option Match)} :
    NoOverflow rs ↔ rs.length ≤ 65535 := by
  constructor
  · intro h
    by_contra hlong
    have hlt : 65535 < rs.length := Nat.lt_of_not_le hlong
    have hlen : (rs.take 65535).length = 65535 := by
      rw [List.length_take, Nat.min_eq_left hlt.le]
    -- the first 65535 rounds are all counted, so the next one does not fit
    have hbounded := Bounded.empty.foldl_add (rs.take 65535) (by omega)
    have hfits := h (rs.take 65535) rs[65535] (rs.drop 65536)
      (by rw [← List.drop_eq_getElem_cons hlt, List.take_append_drop])
    have hinj := hfits.injected
    rw [hbounded.injected, hlen] at hinj
    omega
  · rintro hlen before r after rfl
    simp only [List.length_append, List.length_cons] at hlen
    have hbounded := Bounded.empty.foldl_add before (by omega)
    exact hbounded.fits (by omega) r

/-! ### The report -/

/-- No counter of the report overflows, and all ground truths that were collected are
reported as injected. -/
def ReportFits (opts : Opts) (frames : List (Clock × DuFrame)) : Prop :=
  let r := receive (Dut.new opts.cadenceMs) [] frames
  NoOverflow (matchLoop opts.cadenceMs r.1.detections 0 r.2) ∧
    (run opts frames).injected.toNat = r.2.length

/-- The injected faults are counted modulo the width of the counter. -/
theorem injected_foldl_add (rs : List (GroundTruth × Option Match)) (acc : Tally) :
    (rs.foldl Tally.add acc).injected = acc.injected + UInt16.ofNat rs.length := by
  induction rs generalizing acc with
  | nil => simp
  | cons r rs ih =>
      have hround : (acc.add r).injected = acc.injected + 1 := rfl
      rw [List.foldl_cons, ih, hround, List.length_cons, UInt16.ofNat_add,
        UInt16.add_comm (UInt16.ofNat rs.length), ← UInt16.add_assoc]
      rfl

/-- The injected faults of a report are the admitted announcements, modulo the width of the
counter. -/
theorem injected_run (opts : Opts) (frames : List (Clock × DuFrame)) :
    (run opts frames).injected =
      UInt16.ofNat ((received frames).countP fun x => admits x.2) := by
  have hlen := length_truths_receive (Dut.new opts.cadenceMs) [] frames
  have hcount : (run opts frames).injected = 0 + UInt16.ofNat _ := injected_foldl_add _ Tally.empty
  rw [hcount, length_matchLoop, hlen, List.length_nil, Nat.zero_add, UInt16.zero_add]

/-- A report without an overflow is about at most 65535 announced faults. -/
theorem countP_le_of_reportFits {opts : Opts} {frames : List (Clock × DuFrame)}
    (h : ReportFits opts frames) : ((received frames).countP fun x => admits x.2) ≤ 65535 := by
  have hrounds := noOverflow_iff.mp h.1
  rw [length_matchLoop, length_truths_receive] at hrounds
  simpa using hrounds

/-- **When no counter of the report overflows**: iff at most 65535 FAULT frames with a whole
payload come before the end of the campaign. -/
theorem reportFits_iff (opts : Opts) (frames : List (Clock × DuFrame)) :
    ReportFits opts frames ↔ ((received frames).countP fun x => admits x.2) ≤ 65535 := by
  refine ⟨countP_le_of_reportFits, fun hle => ⟨noOverflow_iff.mpr ?_, ?_⟩⟩
  · rw [length_matchLoop, length_truths_receive]
    simpa using hle
  · rw [injected_run, UInt16.toNat_ofNat_of_lt' (Nat.lt_succ_of_le hle), length_truths_receive]
    simp

/-- The announcement of a DROP at 10. -/
def dropAnnounced : Clock × DuFrame :=
  (fun _ => ⟨0⟩, .ofDecoded (.frame kFault (zeroPadded (faultPayload 1 faultDrop 10) (by decide))
    faultPayloadLen (by decide)))

/-- Of a flood of announcements each is admitted. -/
theorem countP_received_flood (n : ℕ) :
    ((received (List.replicate n dropAnnounced)).countP fun x => admits x.2) = n := by
  have hall : received (List.replicate n dropAnnounced) = List.replicate n dropAnnounced := by
    induction n with
    | zero => rfl
    | succ n ih =>
        rw [List.replicate_succ, received, if_neg (by decide), ih]
  rw [hall, List.countP_replicate, if_pos (by decide)]

/-- A flood of 65536 announcements is reported as no injected fault at all. -/
theorem flood_not_reportFits :
    ¬ (∀ (opts : Opts) (frames : List (Clock × DuFrame)), ReportFits opts frames) ∧
    ¬ ReportFits ⟨true, 1, 100, 5, "fuzz", true⟩ (List.replicate 65536 dropAnnounced) ∧
    (run ⟨true, 1, 100, 5, "fuzz", true⟩ (List.replicate 65536 dropAnnounced)).injected = 0 := by
  have hflood :
      ¬ ReportFits ⟨true, 1, 100, 5, "fuzz", true⟩ (List.replicate 65536 dropAnnounced) := by
    intro h
    have hle := countP_le_of_reportFits h
    rw [countP_received_flood] at hle
    omega
  refine ⟨fun h => hflood (h _ _), hflood, ?_⟩
  rw [injected_run, countP_received_flood]
  decide

end FaultForge
