import Mathlib.Data.List.SplitBy
import FaultForge.Sequence

/-!
# Bursts

A run of garbage is to be recorded as one Burst detection, when the frame behind it is
processed. Two fields of the device under test see to that: the number of garbage frames in
a row, and the flag that a burst has been recorded. `Armed` relates them.

What a single frame does is read off from `process_eq`, since the number of garbage frames
in a row is known (`junkRun_feed`). For the count of the bursts a stream is fed to the
device run by run (`feed_garbage`, `feed_runs`), where the runs are those of
`List.splitBy`.

## Main results

* `Dut.Armed.burst_eq`: which frames close a burst.
* `bursts_coalesced`: one Burst for each run of garbage, at the frame behind it.
-/

namespace FaultForge

/-! ### Garbage in a row -/

/-- How many garbage frames the stream ends with. -/
def trailing (frames : List (Clock × DuFrame)) : ℕ :=
  (frames.reverse.takeWhile fun x => x.2.garbage).length

/-- Garbage lengthens the run at the end, and a frame ends it. -/
theorem trailing_concat (frames : List (Clock × DuFrame)) (x : Clock × DuFrame) :
    trailing (frames ++ [x]) = if x.2.garbage then trailing frames + 1 else 0 := by
  rw [trailing, List.reverse_append, List.reverse_singleton, List.singleton_append,
    List.takeWhile_cons]
  split <;> rfl

/-- The run at the end is not empty iff the last frame is garbage. -/
theorem trailing_pos_iff (frames : List (Clock × DuFrame)) :
    0 < trailing frames ↔ ∃ x ∈ frames.getLast?, x.2.garbage = true := by
  induction frames using List.reverseRecOn with
  | nil => simp [trailing]
  | append_singleton frames x =>
      rw [trailing_concat]
      split
      · next h => simp [h]
      · next h => simpa using h

/-- The garbage frames at the end are a part of the stream. -/
theorem trailing_infix (frames : List (Clock × DuFrame)) :
    ∃ run, run <:+ frames ∧ (∀ x ∈ run, x.2.garbage = true) ∧ run.length = trailing frames := by
  refine ⟨(frames.reverse.takeWhile fun x => x.2.garbage).reverse, ?_, fun x hx => ?_,
    List.length_reverse⟩
  · rw [← List.reverse_reverse frames, List.reverse_suffix, List.reverse_reverse]
    exact List.takeWhile_prefix _
  · exact List.all_eq_true.mp List.all_takeWhile x (List.mem_reverse.mp hx)

namespace Dut

/-- One more frame is processed behind the others. -/
theorem feed_concat (d : Dut) (frames : List (Clock × DuFrame)) (x : Clock × DuFrame) :
    d.feed (frames ++ [x]) = (d.feed frames).process x.1 x.2 :=
  List.foldl_concat ..

/-- Frames in two parts are processed one part after the other. -/
theorem feed_append (d : Dut) (frames frames' : List (Clock × DuFrame)) :
    d.feed (frames ++ frames') = (d.feed frames).feed frames' :=
  List.foldl_append

/-- The counter of garbage frames, modulo its width. -/
theorem junkRun_feed (cadenceMs : UInt16) (frames : List (Clock × DuFrame)) :
    ((Dut.new cadenceMs).feed frames).junkRun = UInt32.ofNat (trailing frames) := by
  induction frames using List.reverseRecOn with
  | nil => rfl
  | append_singleton frames x ih =>
      rw [feed_concat, process_eq, trailing_concat, ih]
      cases x.2.garbage with
      | true => simp
      | false => rfl

/-- **The invariant**: while garbage is pending, no burst has been recorded for it. -/
def Armed (d : Dut) : Prop :=
  1 ≤ d.junkRun → d.burstFlagged = false

/-- A new device under test is armed. -/
theorem armed_new (cadenceMs : UInt16) : (Dut.new cadenceMs).Armed :=
  fun _ => rfl

variable {d : Dut}

/-- Frames leave it armed. -/
theorem Armed.process (clock : Clock) (f : DuFrame) : (d.process clock f).Armed := by
  rw [Armed, process_eq]
  cases h : f.garbage with
  | true => simp
  | false => simp

/-- So do any number of them. -/
theorem Armed.feed (h : d.Armed) (frames : List (Clock × DuFrame)) : (d.feed frames).Armed := by
  induction frames generalizing d with
  | nil => exact h
  | cons x frames ih => exact ih (Armed.process x.1 x.2)

/-- **Which frames close a burst**: those that are no garbage, while garbage is pending. -/
theorem Armed.burst_eq (h : d.Armed) (clock : Clock) (f : DuFrame) :
    d.burst clock f =
      if f.garbage = false ∧ 1 ≤ d.junkRun then
        some ⟨.burst, d.nextSeq, clock 0, d.frameIdx + 1⟩
      else none := by
  rw [burst]
  refine if_congr ?_ rfl rfl
  exact and_congr_right fun _ => and_iff_left_of_imp h

/-- The anomaly of a frame is no burst. -/
theorem kind_anomaly_ne {clock : Clock} {f : DuFrame} {e : Detection}
    (h : d.anomaly clock f = some e) : e.kind ≠ .burst := by
  rw [anomaly] at h
  split at h
  · simp at h
  · split at h
    · obtain rfl := Option.some.inj h
      simp
    · split at h
      · simp at h
      · obtain ⟨k, hk, rfl⟩ := Option.map_eq_some_iff.mp h
        exact (checkSeq_ne hk).2

/-- One frame records a burst iff it closes one. -/
theorem Armed.countKind_process (h : d.Armed) (clock : Clock) (f : DuFrame) :
    countKind .burst (d.process clock f).detections =
      countKind .burst d.detections + if f.garbage = false ∧ 1 ≤ d.junkRun then 1 else 0 := by
  have hanomaly : countKind .burst (d.anomaly clock f).toList = 0 := by
    cases ha : d.anomaly clock f with
    | none => rfl
    | some e => simp [countKind, kind_anomaly_ne ha]
  rw [process_eq, countKind_append, countKind_append, hanomaly, h.burst_eq]
  split <;> simp [countKind]

/-! ### Runs -/

/-- A run of garbage records nothing and is counted. -/
theorem feed_garbage {run : List (Clock × DuFrame)} (h : ∀ x ∈ run, x.2.garbage = true) :
    (d.feed run).detections = d.detections ∧
      (d.feed run).junkRun = d.junkRun + UInt32.ofNat run.length := by
  induction run generalizing d with
  | nil => simp
  | cons x run ih =>
      have hx := h x (List.mem_cons_self ..)
      obtain ⟨hdet, hjunk⟩ := ih (d := d.process x.1 x.2)
        fun y hy => h y (List.mem_cons_of_mem _ hy)
      rw [feed_cons, hdet, hjunk, process_eq]
      refine ⟨by simp [burst, anomaly, hx], ?_⟩
      simp only [hx, if_true, List.length_cons, UInt32.ofNat_add]
      rw [UInt32.add_assoc, UInt32.add_comm 1]
      rfl

/-- A run of other frames closes the burst that is pending, and no other. -/
theorem Armed.feed_frames (h : d.Armed) {run : List (Clock × DuFrame)} (hne : run ≠ [])
    (hrun : ∀ x ∈ run, x.2.garbage = false) :
    countKind .burst (d.feed run).detections =
        countKind .burst d.detections + (if 1 ≤ d.junkRun then 1 else 0) ∧
      (d.feed run).junkRun = 0 := by
  induction run generalizing d with
  | nil => exact absurd rfl hne
  | cons x run ih =>
      have hx := hrun x (List.mem_cons_self ..)
      have hcount := h.countKind_process x.1 x.2
      have hzero : (d.process x.1 x.2).junkRun = 0 := by simp [process_eq, hx]
      rw [feed_cons]
      cases run with
      | nil => simpa [hx, hzero] using hcount
      | cons y run =>
          obtain ⟨hrest, hjunk⟩ := ih (Armed.process x.1 x.2) (List.cons_ne_nil _ _)
            fun y hy => hrun y (List.mem_cons_of_mem _ hy)
          refine ⟨?_, hjunk⟩
          rw [hrest, hcount, hzero]
          simp [hx]

end Dut

/-- The maximal runs of a stream, of garbage and of other frames. -/
def runs (frames : List (Clock × DuFrame)) : List (List (Clock × DuFrame)) :=
  frames.splitBy fun x y => x.2.garbage == y.2.garbage

/-- Whether a run is one of garbage. -/
def isJunk (run : List (Clock × DuFrame)) : Bool :=
  run.any fun x => x.2.garbage

/-- The maximal runs of garbage that are followed by a frame. -/
def closedRuns (frames : List (Clock × DuFrame)) : List (List (Clock × DuFrame)) :=
  (runs frames).dropLast.filter isJunk

/-- Runs that alternate between garbage and other frames, those of garbage shorter than the
counter can count. -/
structure Alternating (rs : List (List (Clock × DuFrame))) : Prop where
  ne_nil : ∀ run ∈ rs, run ≠ []
  uniform : ∀ run ∈ rs, ∀ x ∈ run, x.2.garbage = isJunk run
  chain : rs.IsChain fun run run' => isJunk run ≠ isJunk run'
  short : ∀ run ∈ rs, isJunk run = true → run.length < 2 ^ 32

/-- The runs behind the first one alternate too. -/
theorem Alternating.tail {run : List (Clock × DuFrame)} {rs : List (List (Clock × DuFrame))}
    (h : Alternating (run :: rs)) : Alternating rs where
  ne_nil r hr := h.ne_nil r (List.mem_cons_of_mem _ hr)
  uniform r hr := h.uniform r (List.mem_cons_of_mem _ hr)
  chain := h.chain.tail
  short r hr := h.short r (List.mem_cons_of_mem _ hr)

/-- The next run, if there is one, is of the other sort. -/
theorem Alternating.isJunk_next {run : List (Clock × DuFrame)}
    {rs : List (List (Clock × DuFrame))} (h : Alternating (run :: rs)) :
    ∀ run' ∈ rs.head?, isJunk run' = !isJunk run := by
  intro run' hrun'
  cases rs with
  | nil => simp at hrun'
  | cons r rs =>
      obtain rfl : r = run' := by simpa using hrun'
      exact Bool.eq_not.mpr (List.isChain_cons_cons.mp h.chain).1.symm

/-- A run of garbage is closed by the runs behind it. -/
theorem length_closed_cons (run : List (Clock × DuFrame)) (rs : List (List (Clock × DuFrame))) :
    ((run :: rs).dropLast.filter isJunk).length =
      (if isJunk run = true ∧ rs ≠ [] then 1 else 0) + (rs.dropLast.filter isJunk).length := by
  cases rs with
  | nil => simp
  | cons r rs =>
      rw [List.dropLast_cons_of_ne_nil (List.cons_ne_nil _ _), List.filter_cons]
      cases isJunk run <;> simp [Nat.add_comm]

/-- **The bursts of a stream, run by run**: one for the garbage pending at its beginning, and
one for every run of garbage that another run follows. -/
theorem Dut.Armed.feed_runs {d : Dut} (harmed : d.Armed) {rs : List (List (Clock × DuFrame))}
    (h : Alternating rs) (hhead : 1 ≤ d.junkRun → ∀ run ∈ rs.head?, isJunk run = false) :
    countKind .burst (d.feed rs.flatten).detections =
      countKind .burst d.detections + (if 1 ≤ d.junkRun ∧ rs ≠ [] then 1 else 0) +
        (rs.dropLast.filter isJunk).length := by
  induction rs generalizing d with
  | nil => simp
  | cons run rs ih =>
      have hne := h.ne_nil run (List.mem_cons_self ..)
      have huniform := h.uniform run (List.mem_cons_self ..)
      have hnext := h.isJunk_next
      rw [List.flatten_cons, feed_append, length_closed_cons]
      cases hjunk : isJunk run with
      | true =>
          have hnone : ¬ 1 ≤ d.junkRun := fun hpos => by
            have hfirst := hhead hpos run rfl
            rw [hjunk] at hfirst
            exact absurd hfirst (by simp)
          obtain ⟨hdet, hcount⟩ := d.feed_garbage fun x hx => (huniform x hx).trans hjunk
          have hpending : 1 ≤ (d.feed run).junkRun := by
            have hshort := h.short run (List.mem_cons_self ..) hjunk
            have hpos := List.length_pos_iff.mpr hne
            rw [UInt32.le_iff_toNat_le, UInt32.toNat_one] at hnone ⊢
            rw [hcount, UInt32.toNat_add, UInt32.toNat_ofNat_of_lt' hshort]
            omega
          rw [ih (harmed.feed run) h.tail fun _ r hr => (hnext r hr).trans (by rw [hjunk]; rfl),
            hdet]
          simp [hnone, hpending, Nat.add_assoc]
      | false =>
          obtain ⟨hcount, hzero⟩ := harmed.feed_frames hne fun x hx => (huniform x hx).trans hjunk
          have hquiet := not_one_le_junkRun hzero
          rw [ih (harmed.feed run) h.tail fun hpos => absurd hpos hquiet, hcount]
          simp [hquiet]

/-- In a run all frames are alike. -/
theorem uniform_of_mem_runs {frames run : List (Clock × DuFrame)} (h : run ∈ runs frames) :
    ∀ x ∈ run, x.2.garbage = isJunk run := by
  have hsame : run.Pairwise fun x y => x.2.garbage = y.2.garbage := by
    have hchain := List.isChain_of_mem_splitBy h
    exact List.IsChain.pairwise (hchain.imp fun x y hxy => by simpa using hxy)
  have hall : ∀ x ∈ run, ∀ y ∈ run, x.2.garbage = y.2.garbage :=
    fun _ hx _ hy => List.Pairwise.forall_of_forall_of_flip
      (R := fun x y => x.2.garbage = y.2.garbage) (fun _ _ => rfl) hsame (hsame.imp Eq.symm) hx hy
  intro x hx
  cases hg : x.2.garbage with
  | true => exact (List.any_eq_true.mpr ⟨x, hx, hg⟩).symm
  | false => exact (List.any_eq_false.mpr fun y hy => by simp [← hall x hx y hy, hg]).symm

/-- The maximal runs of a stream alternate. -/
theorem alternating_runs {frames : List (Clock × DuFrame)}
    (hshort : ∀ run, run <:+: frames → (∀ x ∈ run, x.2.garbage = true) →
      run.length < 2 ^ 32) : Alternating (runs frames) where
  ne_nil run hrun := List.ne_nil_of_mem_splitBy hrun
  uniform run hrun := uniform_of_mem_runs hrun
  chain := by
    refine (List.isChain_getLast_head_splitBy _ _).imp_of_mem_imp fun run run' hrun hrun' h => ?_
    obtain ⟨ha, hb, hdiff⟩ := h
    rw [← uniform_of_mem_runs hrun _ (List.getLast_mem ha),
      ← uniform_of_mem_runs hrun' _ (List.head_mem hb)]
    simpa using hdiff
  short run hrun hjunk := by
    refine hshort run ?_ fun x hx => (uniform_of_mem_runs hrun x hx).trans hjunk
    rw [← List.flatten_splitBy (fun x y => x.2.garbage == y.2.garbage) frames]
    exact List.infix_of_mem_flatten hrun

/-! ### The coalescing of bursts -/

/-- A frame that is no garbage, right behind one that is: the frame that follows a maximal
run of garbage. -/
def Closes (before : List (Clock × DuFrame)) (f : DuFrame) : Prop :=
  f.garbage = false ∧ ∃ x ∈ before.getLast?, x.2.garbage = true

/-- **Bursts are coalesced exactly.** In every stream with fewer than 2 ^ 32 garbage frames
in a row there are as many bursts as maximal runs of garbage that another frame follows.
Each frame that follows such a run records one Burst, before whatever else it records, and
no other frame records a burst. No frame records more than two detections, and garbage
records none and leaves the last frame heard alone. -/
theorem bursts_coalesced (cadenceMs : UInt16) {frames : List (Clock × DuFrame)}
    (hshort : ∀ run, run <:+: frames → (∀ x ∈ run, x.2.garbage = true) →
      run.length < 2 ^ 32) :
    countKind .burst ((Dut.new cadenceMs).feed frames).detections = (closedRuns frames).length ∧
    ∀ before x after, frames = before ++ x :: after →
      let d := (Dut.new cadenceMs).feed before
      let d' := d.process x.1 x.2
      ∃ first rest, d'.detections = d.detections ++ first ++ rest ∧
        first.length + rest.length ≤ 2 ∧
        (Closes before x.2 → ∃ e, first = [e] ∧ e.kind = .burst) ∧
        (¬ Closes before x.2 → first = []) ∧
        (∀ e ∈ rest, e.kind ≠ .burst) ∧
        (x.2.garbage = true →
          d'.detections = d.detections ∧ d'.lastSeq = d.lastSeq ∧ d'.lastTime = d.lastTime) := by
  have harmed := Dut.armed_new cadenceMs
  refine ⟨?_, ?_⟩
  · have hquiet : ¬ 1 ≤ (Dut.new cadenceMs).junkRun := Dut.not_one_le_junkRun rfl
    have hruns := harmed.feed_runs (alternating_runs hshort) fun h => absurd h hquiet
    have hfrom : countKind .burst (Dut.new cadenceMs).detections = 0 := rfl
    rw [runs, List.flatten_splitBy, hfrom, if_neg fun h => hquiet h.1] at hruns
    rw [closedRuns, runs]
    simpa using hruns
  · rintro before x after rfl d d'
    have hpending : 1 ≤ d.junkRun ↔ ∃ y ∈ before.getLast?, y.2.garbage = true := by
      obtain ⟨run, hsuffix, hrun, hlen⟩ := trailing_infix before
      have hlt := hshort run
        (hsuffix.isInfix.trans (List.infix_append' [] before (x :: after))) hrun
      rw [← trailing_pos_iff, ← hlen, UInt32.le_iff_toNat_le, Dut.junkRun_feed, ← hlen,
        UInt32.toNat_ofNat_of_lt' hlt]
      rfl
    have hburst := (harmed.feed before).burst_eq x.1 x.2
    refine ⟨(d.burst x.1 x.2).toList, (d.anomaly x.1 x.2).toList, ?_, ?_, ?_, ?_, ?_, ?_⟩
    · exact congrArg Dut.detections (d.process_eq x.1 x.2)
    · cases d.burst x.1 x.2 <;> cases d.anomaly x.1 x.2 <;> simp
    · intro hcloses
      rw [hburst, if_pos ⟨hcloses.1, hpending.mpr hcloses.2⟩]
      exact ⟨_, rfl, rfl⟩
    · intro hcloses
      rw [hburst, if_neg fun h => hcloses ⟨h.1, hpending.mp h.2⟩]
      rfl
    · intro e he
      exact Dut.kind_anomaly_ne (Option.mem_toList.mp he)
    · intro hg
      have hquiet : x.2.garbage = true := hg
      simp only [d', Dut.process_eq]
      simp [Dut.burst, Dut.anomaly, Dut.heard, hquiet]

/-- A garbage marker. -/
def junkAt (ms : ℕ) : Clock × DuFrame :=
  (fun _ => ⟨ms * 1000000⟩, .ofDecoded .garbage)

/-- Two runs of garbage with a corrupted frame behind the first and nothing behind the
second. -/
theorem one_burst_coalesced :
    countKind .burst ((Dut.new 5).feed [sensorAt 0 7, junkAt 5, junkAt 6, corruptedAt 7 kSensor,
      sensorAt 12 9, junkAt 13]).detections = 1 :=
  (bursts_coalesced 5 fun _ h _ => h.length_le.trans_lt (by decide)).1.trans (by decide +kernel)

end FaultForge
