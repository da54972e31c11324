import FaultForge.Overflow
import FaultForge.Sequence

/-!
# The Order of Events

The loop of a campaign collects its detections and its ground truths in two lists, and the scorer
sees nothing else of the order in which they came. Both carry a time and the number of frames
processed so far. On a clock that never goes back, `chronicle` lists the events of both sorts in
the order in which the loop makes them: neither time nor frame number goes back in it, and a
detection behind a truth has a larger frame number, since only a processed frame records
anything (`pairwise_chronicle`).

So the two lists are sorted, and the frame numbers tell of a detection and a truth which came
first (`events_in_order`). For the scorer it follows that a latency is above zero only where the
detection was made behind the announcement of its fault (`latency_of_later`). The injector
announces a fault behind the frames of its slot, so what those frames give away has no latency.

## Main results

* `pairwise_chronicle`: the events of a campaign are in order.
* `events_in_order`: what the two lists say about the order.
* `latency_of_later`: which latencies are above zero.
-/

namespace FaultForge

/-- The clock never goes back, from one reading to the next and from one frame to the next. -/
structure Ticking (arrivals : List (Clock × DuFrame)) : Prop where
  within : ∀ x ∈ arrivals, ∀ j k, j ≤ k → (x.1 j).nanos ≤ (x.1 k).nanos
  across : arrivals.Pairwise fun x y => ∀ j k, (x.1 j).nanos ≤ (y.1 k).nanos

/-- The arrivals behind the first one are in order too. -/
theorem Ticking.tail {x : Clock × DuFrame} {arrivals : List (Clock × DuFrame)}
    (h : Ticking (x :: arrivals)) : Ticking arrivals where
  within y hy := h.within y (List.mem_cons_of_mem _ hy)
  across := (List.pairwise_cons.mp h.across).2

/-! ### The chronicle of a campaign -/

/-- An event of a campaign: a detection is recorded or a ground truth is read. -/
inductive Note where
  | saw (e : Detection)
  | told (t : GroundTruth)

namespace Note

/-- When the note was taken. -/
def nanos : Note → ℕ
  | saw e => e.atTime.nanos
  | told t => t.atTime.nanos

/-- The number of frames processed before a truth, or up to a detection. -/
def frames : Note → ℕ
  | saw e => e.frameIdx.toNat
  | told t => t.frameIdx.toNat

/-- The detection that was noted, if it was one. -/
def detection : Note → Option Detection
  | saw e => some e
  | told _ => none

/-- The truth that was noted, if it was one. -/
def truth : Note → Option GroundTruth
  | saw _ => none
  | told t => some t

/-- One event may come after another: neither time nor frame number goes back, and a detection
behind a truth has a larger frame number. -/
structure Before (a b : Note) : Prop where
  nanos : a.nanos ≤ b.nanos
  frames : a.frames ≤ b.frames
  strict : a.truth.isSome = true → b.detection.isSome = true → a.frames < b.frames

end Note

/-- The events of one frame that is handed to the device under test. -/
def Dut.notes (d : Dut) (clock : Clock) (f : DuFrame) : List Note :=
  ((d.burst clock f).toList ++ (d.anomaly clock f).toList).map .saw

/-- The events of a campaign, in the order in which its loop makes them. -/
def chronicle : Dut → List (Clock × DuFrame) → List Note
  | _, [] => []
  | dut, (clock, f) :: fs =>
      match dispatch f.kind with
      | .process => dut.notes clock f ++ chronicle (dut.process clock f) fs
      | .truth =>
          ((GroundTruth.fromPayload (f.payload.toList.take f.len) dut.frameIdx
            (clock 0)).map Note.told).toList ++ chronicle dut fs
      | .stop => []

/-- The loop keeps its events in two lists. -/
theorem receive_eq_chronicle (dut : Dut) (truths : List GroundTruth)
    (arrivals : List (Clock × DuFrame)) :
    (receive dut truths arrivals).1.detections =
        dut.detections ++ (chronicle dut arrivals).filterMap Note.detection ∧
      (receive dut truths arrivals).2 =
        truths ++ (chronicle dut arrivals).filterMap Note.truth := by
  induction arrivals generalizing dut truths with
  | nil => simp [receive, chronicle]
  | cons x fs ih =>
      obtain ⟨clock, f⟩ := x
      rw [receive, chronicle]
      cases dispatch f.kind with
      | process =>
          obtain ⟨hdets, htruths⟩ := ih (dut.process clock f) truths
          have hsaw : ∀ es : List Detection,
              (es.map Note.saw).filterMap Note.detection = es ∧
                (es.map Note.saw).filterMap Note.truth = [] := fun es => by
            simp [List.filterMap_map, Function.comp_def, Note.detection, Note.truth]
          have hprocess : (dut.process clock f).detections =
              dut.detections ++ ((dut.burst clock f).toList ++ (dut.anomaly clock f).toList) := by
            rw [Dut.process_eq, List.append_assoc]
          simp only [hdets, htruths, hprocess, List.filterMap_append, Dut.notes, hsaw,
            List.append_assoc, List.nil_append, and_self]
      | truth =>
          simp only
          cases GroundTruth.fromPayload (f.payload.toList.take f.len) dut.frameIdx (clock 0) with
          | none => exact ih dut truths
          | some gt =>
              obtain ⟨hdets, htruths⟩ := ih dut (truths ++ [gt])
              refine ⟨hdets, ?_⟩
              rw [htruths, List.append_assoc]
              rfl
      | stop => simp

/-! ### The events are in order -/

/-- Where the events of a campaign lie: they come at readings of its clock, and not before the
device under test has processed the frames that it has. -/
structure Within (dut : Dut) (arrivals : List (Clock × DuFrame)) (e : Note) : Prop where
  reading : ∃ x ∈ arrivals, ∃ j, e.nanos = (x.1 j).nanos
  frames : dut.frameIdx.toNat ≤ e.frames
  strict : e.detection.isSome = true → dut.frameIdx.toNat < e.frames

/-- The number of frames processed, as long as it does not wrap. -/
theorem toNat_frameIdx_process {d : Dut} (clock : Clock) (f : DuFrame)
    (h : d.frameIdx.toNat + 1 < 2 ^ 64) :
    (d.process clock f).frameIdx.toNat = d.frameIdx.toNat + 1 := by
  rw [Dut.process_eq]
  exact (UInt64.toNat_add ..).trans (Nat.mod_eq_of_lt h)

/-- A burst is recorded at the first reading of the clock, any other detection later. -/
theorem Dut.of_mem_burst {d : Dut} {clock : Clock} {f : DuFrame} {e : Detection}
    (he : e ∈ d.burst clock f) : e.atTime = clock 0 ∧ e.frameIdx = d.frameIdx + 1 := by
  rw [Option.mem_def, Dut.burst] at he
  obtain ⟨-, he⟩ := Option.ite_none_right_eq_some.mp he
  obtain rfl := Option.some.inj he
  exact ⟨rfl, rfl⟩

/-- An anomaly is recorded at a reading of the frame's own clock, under the number of the
frame. -/
theorem Dut.of_mem_anomaly {d : Dut} {clock : Clock} {f : DuFrame} {e : Detection}
    (he : e ∈ d.anomaly clock f) :
    (∃ j, e.atTime = clock j) ∧ e.frameIdx = d.frameIdx + 1 := by
  rw [Option.mem_def, Dut.anomaly] at he
  split at he
  · cases he
  · split at he
    · obtain rfl := Option.some.inj he
      exact ⟨⟨1, rfl⟩, rfl⟩
    · split at he
      · cases he
      · obtain ⟨k, -, rfl⟩ := Option.map_eq_some_iff.mp he
        exact ⟨⟨2, rfl⟩, rfl⟩

/-- A truth carries the count of the frames and the time of its arrival. -/
theorem fromPayload_at {payload : List UInt8} {frameIdx : UInt64} {now : Instant}
    {gt : GroundTruth} (h : GroundTruth.fromPayload payload frameIdx now = some gt) :
    gt.atTime = now ∧ gt.frameIdx = frameIdx := by
  rw [GroundTruth.fromPayload] at h
  split at h
  · cases h
  · obtain rfl := Option.some.inj h
    exact ⟨rfl, rfl⟩

/-- **The events of one frame**: the burst comes before the anomaly, and both carry the number
of the frame. -/
theorem notes_spec {d : Dut} {clock : Clock} {f : DuFrame}
    (hclock : ∀ j k, j ≤ k → (clock j).nanos ≤ (clock k).nanos) :
    (d.notes clock f).Pairwise Note.Before ∧
      ∀ e ∈ d.notes clock f, (∃ j, e.nanos = (clock j).nanos) ∧
        e.frames = (d.frameIdx + 1).toNat := by
  have hpair : ∀ o : Option Detection, (o.toList.map Note.saw).Pairwise Note.Before := by
    intro o
    cases o <;> simp
  constructor
  · rw [Dut.notes, List.map_append, List.pairwise_append]
    refine ⟨hpair _, hpair _, fun a ha b hb => ?_⟩
    obtain ⟨e, he, rfl⟩ := List.mem_map.mp ha
    obtain ⟨e', he', rfl⟩ := List.mem_map.mp hb
    obtain ⟨htime, hidx⟩ := Dut.of_mem_burst (Option.mem_toList.mp he)
    obtain ⟨⟨j, hj⟩, hidx'⟩ := Dut.of_mem_anomaly (Option.mem_toList.mp he')
    refine ⟨?_, ?_, fun h => absurd h (by simp [Note.truth])⟩
    · simpa only [Note.nanos, htime, hj] using hclock 0 j (Nat.zero_le j)
    · simp only [Note.frames, hidx, hidx', le_refl]
  · intro a ha
    obtain ⟨e, he, rfl⟩ := List.mem_map.mp ha
    rcases List.mem_append.mp he with he | he
    · obtain ⟨htime, hidx⟩ := Dut.of_mem_burst (Option.mem_toList.mp he)
      exact ⟨⟨0, congrArg Instant.nanos htime⟩, congrArg UInt64.toNat hidx⟩
    · obtain ⟨⟨j, hj⟩, hidx⟩ := Dut.of_mem_anomaly (Option.mem_toList.mp he)
      exact ⟨⟨j, congrArg Instant.nanos hj⟩, congrArg UInt64.toNat hidx⟩

/-- **The events of a campaign are in order**, as long as the count of the frames does not
wrap. -/
theorem pairwise_chronicle {dut : Dut} {arrivals : List (Clock × DuFrame)}
    (htick : Ticking arrivals) (hcount : dut.frameIdx.toNat + arrivals.length < 2 ^ 64) :
    (chronicle dut arrivals).Pairwise Note.Before ∧
      ∀ e ∈ chronicle dut arrivals, Within dut arrivals e := by
  induction arrivals generalizing dut with
  | nil => simp [chronicle]
  | cons x arrivals ih =>
      obtain ⟨clock, f⟩ := x
      have hread : ∀ j, ∀ y ∈ arrivals, ∀ k, (clock j).nanos ≤ (y.1 k).nanos := fun j y hy k =>
        (List.pairwise_cons.mp htick.across).1 y hy j k
      rw [List.length_cons] at hcount
      rw [chronicle]
      cases dispatch f.kind with
      | process =>
          have hidx := toNat_frameIdx_process (d := dut) clock f (by omega)
          have hidx' : (dut.frameIdx + 1).toNat = dut.frameIdx.toNat + 1 := by
            rw [← hidx, Dut.process_eq]
          obtain ⟨hlater, hwithin⟩ := @ih (dut.process clock f) htick.tail
            (by rw [hidx]; omega)
          obtain ⟨hnotes, hof⟩ := notes_spec (d := dut) (f := f)
            (htick.within _ (List.mem_cons_self ..))
          refine ⟨List.pairwise_append.mpr ⟨hnotes, hlater, fun a ha b hb => ?_⟩, fun e he => ?_⟩
          · obtain ⟨⟨j, hj⟩, hframes⟩ := hof a ha
            obtain ⟨⟨y, hy, k, hk⟩, hle, hlt⟩ := hwithin b hb
            rw [hidx] at hle hlt
            rw [hidx'] at hframes
            exact ⟨by rw [hj, hk]; exact hread j y hy k, by omega,
              fun _ hb => hframes ▸ hlt hb⟩
          · rcases List.mem_append.mp he with he | he
            · obtain ⟨⟨j, hj⟩, hframes⟩ := hof e he
              exact ⟨⟨_, List.mem_cons_self .., j, hj⟩, by omega, fun _ => by omega⟩
            · obtain ⟨⟨y, hy, k, hk⟩, hle, hlt⟩ := hwithin e he
              rw [hidx] at hle hlt
              exact ⟨⟨y, List.mem_cons_of_mem _ hy, k, hk⟩, by omega,
                fun h => (Nat.lt_succ_self _).trans (hlt h)⟩
      | truth =>
          obtain ⟨hlater, hwithin⟩ := @ih dut htick.tail (by omega)
          have hrest : ∀ e ∈ chronicle dut arrivals, Within dut ((clock, f) :: arrivals) e := by
            intro e he
            obtain ⟨⟨y, hy, k, hk⟩, hle, hlt⟩ := hwithin e he
            exact ⟨⟨y, List.mem_cons_of_mem _ hy, k, hk⟩, hle, hlt⟩
          simp only
          cases hgt : GroundTruth.fromPayload (f.payload.toList.take f.len) dut.frameIdx
              (clock 0) with
          | none => exact ⟨hlater, hrest⟩
          | some gt =>
              obtain ⟨htime, hframes⟩ := fromPayload_at hgt
              refine ⟨List.pairwise_cons.mpr ⟨fun b hb => ?_, hlater⟩, fun e he => ?_⟩
              · obtain ⟨⟨y, hy, k, hk⟩, hle, hlt⟩ := hwithin b hb
                refine ⟨?_, ?_, fun _ h => ?_⟩
                · simpa only [Note.nanos, htime, ← hk] using hread 0 y hy k
                · simpa only [Note.frames, hframes] using hle
                · simpa only [Note.frames, hframes] using hlt h
              · rcases List.mem_cons.mp he with rfl | he
                · exact ⟨⟨_, List.mem_cons_self .., 0, congrArg Instant.nanos htime⟩,
                    (congrArg UInt64.toNat hframes).ge, nofun⟩
                · exact hrest e he
      | stop => simp

/-! ### The two lists -/

/-- Of two members of an ordered list, one comes before the other. -/
theorem before_or_before {notes : List Note} (h : notes.Pairwise Note.Before) {a b : Note}
    (ha : a ∈ notes) (hb : b ∈ notes) (hne : a ≠ b) : a.Before b ∨ b.Before a := by
  have : Std.Symm fun a b : Note => a.Before b ∨ b.Before a := ⟨fun _ _ => Or.symm⟩
  have heither : notes.Pairwise fun a b => a.Before b ∨ b.Before a := h.imp Or.inl
  exact heither.forall ha hb hne

/-- The note of a detection. -/
theorem Note.eq_saw {n : Note} {e : Detection} (h : n.detection = some e) : n = .saw e := by
  cases n with
  | saw e' => exact congrArg Note.saw (Option.some.inj h)
  | told t => exact nomatch h

/-- The note of a truth. -/
theorem Note.eq_told {n : Note} {t : GroundTruth} (h : n.truth = some t) : n = .told t := by
  cases n with
  | saw e => exact nomatch h
  | told t' => exact congrArg Note.told (Option.some.inj h)

section Lists

variable {cadenceMs : UInt16} {arrivals : List (Clock × DuFrame)}

/-- The two lists of a campaign are read off its chronicle, which is in order. -/
theorem exists_chronicle (cadenceMs : UInt16) (htick : Ticking arrivals)
    (hcount : arrivals.length < 2 ^ 64) :
    ∃ notes : List Note, notes.Pairwise Note.Before ∧
      (receive (.new cadenceMs) [] arrivals).1.detections = notes.filterMap Note.detection ∧
      (receive (.new cadenceMs) [] arrivals).2 = notes.filterMap Note.truth := by
  obtain ⟨horder, -⟩ := @pairwise_chronicle (.new cadenceMs) _ htick
    (by rwa [show (Dut.new cadenceMs).frameIdx.toNat = 0 from rfl, Nat.zero_add])
  obtain ⟨hdets, htruths⟩ := receive_eq_chronicle (.new cadenceMs) [] arrivals
  exact ⟨_, horder, hdets, htruths⟩

/-- Of a detection and a truth, the frame numbers tell which came first. -/
theorem order_of_frameIdx (htick : Ticking arrivals) (hcount : arrivals.length < 2 ^ 64)
    {e : Detection} {t : GroundTruth}
    (he : e ∈ (receive (.new cadenceMs) [] arrivals).1.detections)
    (ht : t ∈ (receive (.new cadenceMs) [] arrivals).2) :
    (e.frameIdx ≤ t.frameIdx → e.atTime.nanos ≤ t.atTime.nanos) ∧
      (t.frameIdx < e.frameIdx → t.atTime.nanos ≤ e.atTime.nanos) := by
  obtain ⟨notes, horder, hdets, htruths⟩ := exists_chronicle cadenceMs htick hcount
  rw [hdets] at he
  rw [htruths] at ht
  obtain ⟨n, hn, hne⟩ := List.mem_filterMap.mp he
  obtain ⟨n', hn', hnt⟩ := List.mem_filterMap.mp ht
  obtain rfl := Note.eq_saw hne
  obtain rfl := Note.eq_told hnt
  rw [UInt64.le_iff_toNat_le, UInt64.lt_iff_toNat_lt]
  rcases before_or_before horder hn hn' (by simp) with h | h
  · have hframes : e.frameIdx.toNat ≤ t.frameIdx.toNat := h.frames
    exact ⟨fun _ => h.nanos, fun hlt => by omega⟩
  · have hframes : t.frameIdx.toNat < e.frameIdx.toNat := h.strict rfl rfl
    exact ⟨fun hle => by omega, fun _ => h.nanos⟩

/-- **The order of events.** On a clock that never goes back, the detections of a campaign are
sorted by time and by frame number, and so are the ground truths. Of a detection and a truth,
the frame numbers tell which came first: the detection, unless its number is larger. -/
theorem events_in_order (cadenceMs : UInt16) (htick : Ticking arrivals)
    (hcount : arrivals.length < 2 ^ 64) :
    let r := receive (.new cadenceMs) [] arrivals
    (r.1.detections.Pairwise fun e e' =>
        e.atTime.nanos ≤ e'.atTime.nanos ∧ e.frameIdx ≤ e'.frameIdx) ∧
      (r.2.Pairwise fun t t' => t.atTime.nanos ≤ t'.atTime.nanos ∧ t.frameIdx ≤ t'.frameIdx) ∧
      ∀ e ∈ r.1.detections, ∀ t ∈ r.2,
        (e.frameIdx ≤ t.frameIdx → e.atTime.nanos ≤ t.atTime.nanos) ∧
        (t.frameIdx < e.frameIdx → t.atTime.nanos ≤ e.atTime.nanos) := by
  intro r
  obtain ⟨notes, horder, hdets, htruths⟩ := exists_chronicle cadenceMs htick hcount
  refine ⟨?_, ?_, fun e he t ht => order_of_frameIdx htick hcount he ht⟩
  · rw [hdets, List.pairwise_filterMap]
    refine horder.imp fun hab e he e' he' => ?_
    obtain rfl := Note.eq_saw he
    obtain rfl := Note.eq_saw he'
    exact ⟨hab.nanos, UInt64.le_iff_toNat_le.mpr hab.frames⟩
  · rw [htruths, List.pairwise_filterMap]
    refine horder.imp fun hab t ht t' ht' => ?_
    obtain rfl := Note.eq_told ht
    obtain rfl := Note.eq_told ht'
    exact ⟨hab.nanos, UInt64.le_iff_toNat_le.mpr hab.frames⟩

end Lists

/-- A clock that stands still during each frame, and ticks in between. -/
theorem ticking_of_isChain {arrivals : List (Clock × DuFrame)}
    (hstill : ∀ x ∈ arrivals, ∀ j, x.1 j = x.1 0)
    (h : arrivals.Pairwise fun x y => (x.1 0).nanos ≤ (y.1 0).nanos) : Ticking arrivals where
  within x hx j k _ := by rw [hstill x hx j, hstill x hx k]
  across := by
    refine List.Pairwise.imp_of_mem (fun {x y} hx hy hxy j k => ?_) h
    rw [hstill x hx j, hstill y hy k]
    exact hxy

/-- A lost frame is announced before the next one arrives, which gives it away. -/
def lostFrame : List (Clock × DuFrame) :=
  [sensorAt 0 0, (fun _ => ⟨1000000⟩, faultFrame 1 faultDrop 1), sensorAt 5 2]

/-- The frames around a lost one come in order. -/
theorem ticking_lostFrame : Ticking lostFrame :=
  ticking_of_isChain (by simp [lostFrame, sensorAt]) (by simp [lostFrame, sensorAt])

/-- The events around a lost frame are in order. -/
theorem lostFrame_in_order :
    let r := receive (.new 5) [] lostFrame
    (r.1.detections.Pairwise fun e e' =>
        e.atTime.nanos ≤ e'.atTime.nanos ∧ e.frameIdx ≤ e'.frameIdx) ∧
      (r.2.Pairwise fun t t' => t.atTime.nanos ≤ t'.atTime.nanos ∧ t.frameIdx ≤ t'.frameIdx) ∧
      ∀ e ∈ r.1.detections, ∀ t ∈ r.2,
        (e.frameIdx ≤ t.frameIdx → e.atTime.nanos ≤ t.atTime.nanos) ∧
        (t.frameIdx < e.frameIdx → t.atTime.nanos ≤ e.atTime.nanos) :=
  events_in_order 5 ticking_lostFrame (by decide)

/-! ### Latencies -/

/-- **Which latencies are above zero.** On a clock that never goes back, a match has a latency
above zero only if its detection was made on a frame behind the announcement of its fault. The
frames of a slot go out before its fault is announced: what they give away themselves is
reported with latency zero, however long the detection took. -/
theorem latency_of_later (opts : Opts) {arrivals : List (Clock × DuFrame)}
    (htick : Ticking arrivals) (hcount : arrivals.length < 2 ^ 64) :
    let r := receive (.new opts.cadenceMs) [] arrivals
    ∀ row ∈ matchLoop opts.cadenceMs r.1.detections 0 r.2, ∀ m, row.2 = some m →
      m.latencyMs ≠ 0 → row.1.frameIdx < m.det.frameIdx := by
  intro r row hrow m hm hlat
  obtain ⟨hget, -, hlatency⟩ := matchLoop_spec hrow hm
  have htruth : row.1 ∈ r.2 := by
    have hmem := List.mem_map_of_mem (f := Prod.fst) hrow
    rwa [matchLoop_fst] at hmem
  obtain ⟨hbefore, -⟩ := order_of_frameIdx htick hcount (List.mem_of_getElem? hget) htruth
  by_contra hle
  have htimes := hbefore (UInt64.not_lt.mp hle)
  refine hlat ?_
  rw [hlatency, Instant.millisSince, Nat.sub_eq_zero_of_le htimes, Nat.zero_div]
  rfl

/-- The gap behind the lost frame is found four milliseconds after the announcement. -/
theorem lostFrame_latency :
    (matchLoop 5 (receive (.new 5) [] lostFrame).1.detections 0
        (receive (.new 5) [] lostFrame).2).map (fun row => row.2.map Match.latencyMs) =
      [some 4] ∧
    ∀ row ∈ matchLoop 5 (receive (.new 5) [] lostFrame).1.detections 0
        (receive (.new 5) [] lostFrame).2, ∀ m, row.2 = some m →
      m.latencyMs ≠ 0 → row.1.frameIdx < m.det.frameIdx :=
  ⟨by decide +kernel, latency_of_later ⟨true, 1, 2, 5, "fuzz", true⟩ ticking_lostFrame (by decide)⟩

end FaultForge
