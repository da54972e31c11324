import FaultForge.Lib.SortedTable
import FaultForge.Scoring

/-!
# The Campaign Report

The counters, the rows and the table by kind of a campaign's result are maintained side by
side in one loop over the matches. This module relates each of them to the rows: `rowOf`
is the row that a match gives, the table by kind is the grouping of the rows
(`FaultForge.Lib.SortedTable`), and `Consistent` says that the parts of a result agree.

## Main results

* `perKind_eq_group`: the table by kind groups the rows.
* `score_consistent`: the result of a campaign is self-consistent.
-/

namespace FaultForge

open SortedTable

/-! ### The rows -/

/-- The row that the aggregation adds for a truth and its match. -/
def rowOf (r : GroundTruth × Option Match) : Row :=
  match r.2 with
  | some m => ⟨r.1.faultId, r.1.kind, r.1.atSeq, true, m.det.kind.asStr, m.latencyMs⟩
  | none =>
      ⟨r.1.faultId, r.1.kind, r.1.atSeq, false,
        if (expectedDets r.1.kind).isEmpty then "physical" else "__miss__", 0⟩

/-- The row of a truth has its fault id. -/
@[simp] theorem faultId_rowOf (r : GroundTruth × Option Match) :
    (rowOf r).faultId = r.1.faultId := by
  unfold rowOf
  split <;> rfl

/-- It has its kind. -/
@[simp] theorem kind_rowOf (r : GroundTruth × Option Match) : (rowOf r).kind = r.1.kind := by
  unfold rowOf
  split <;> rfl

/-- It has its sequence number. -/
@[simp] theorem atSeq_rowOf (r : GroundTruth × Option Match) : (rowOf r).atSeq = r.1.atSeq := by
  unfold rowOf
  split <;> rfl

/-- It is marked as detected iff the truth is paired. -/
@[simp] theorem detected_rowOf (r : GroundTruth × Option Match) :
    (rowOf r).detected = r.2.isSome := by
  unfold rowOf
  split <;> simp_all

/-- Count a row in the entry of its kind: how many were injected, how many detected. -/
def countRow (r : Row) (v : UInt16 × UInt16) : UInt16 × UInt16 :=
  (v.1 + 1, if r.detected then v.2 + 1 else v.2)

/-- An entry of the table by kind, as a key with its counts. -/
def KindStat.entry (e : KindStat) : UInt8 × UInt16 × UInt16 :=
  (e.kind, e.injected, e.detected)

/-- The entry for a kind is found or made as in a sorted table. -/
theorem map_entry_countEntry (r : Row) (es : List KindStat) :
    (countEntry r.kind r.detected es).map KindStat.entry =
      SortedTable.entry r.kind (countRow r (0, 0)) (countRow r) (es.map KindStat.entry) := by
  induction es with
  | nil => rfl
  | cons e es ih =>
      simp only [countEntry, List.map_cons, SortedTable.entry, KindStat.entry]
      split
      · rfl
      · split
        · next hk => simp [KindStat.entry, countRow, hk]
        · rw [List.map_cons, ih]
          rfl

/-! ### The loop -/

/-- **One round of the aggregation**: what it adds, read off the row. -/
theorem Tally.add_eq (acc : Tally) (r : GroundTruth × Option Match)
    (hscored : r.2.isSome = true → (expectedDets r.1.kind).isEmpty = false) :
    (acc.add r).rows = acc.rows ++ [rowOf r] ∧
      (acc.add r).latMax = max acc.latMax (rowOf r).latencyMs ∧
      (acc.add r).counts = countEntry (rowOf r).kind (rowOf r).detected acc.counts := by
  have hzero : max acc.latMax 0 = acc.latMax :=
    UInt64.toNat_inj.mp (by rw [UInt64.toNat_max]; simp)
  obtain ⟨t, m⟩ := r
  cases m with
  | none => cases h : (expectedDets t.kind).isEmpty <;> simp [Tally.add, rowOf, h, hzero]
  | some m =>
      have h := hscored rfl
      simp [Tally.add, rowOf, show (expectedDets t.kind).isEmpty = false from h]

/-- **The whole loop**: the rows of the matches, their maximal latency, and their entries in
the table by kind. -/
theorem Tally.foldl_add_eq (rs : List (GroundTruth × Option Match)) (acc : Tally)
    (hscored : ∀ r ∈ rs, r.2.isSome = true → (expectedDets r.1.kind).isEmpty = false) :
    (rs.foldl Tally.add acc).rows = acc.rows ++ rs.map rowOf ∧
      (rs.foldl Tally.add acc).latMax.toNat =
        (rs.map fun r => (rowOf r).latencyMs.toNat).foldl max acc.latMax.toNat ∧
      (rs.foldl Tally.add acc).counts.map KindStat.entry =
        (rs.map rowOf).foldl
          (fun t r => SortedTable.entry r.kind (countRow r (0, 0)) (countRow r) t)
          (acc.counts.map KindStat.entry) := by
  induction rs generalizing acc with
  | nil => simp
  | cons r rs ih =>
      obtain ⟨hrows, hlat, hcounts⟩ := Tally.add_eq acc r (hscored r (List.mem_cons_self ..))
      obtain ⟨ihrows, ihlat, ihcounts⟩ :=
        ih (acc.add r) fun r' hr' => hscored r' (List.mem_cons_of_mem _ hr')
      rw [List.foldl_cons, ihrows, ihlat, ihcounts, hrows, hlat, hcounts, UInt64.toNat_max,
        map_entry_countEntry]
      exact ⟨by simp, rfl, rfl⟩

/-! ### The counts of a kind -/

/-- Counting rows up: the counters are exact modulo their width. -/
theorem foldl_countRow (rows : List Row) (v : UInt16 × UInt16) :
    rows.foldl (fun v r => countRow r v) v =
      (v.1 + UInt16.ofNat rows.length,
        v.2 + UInt16.ofNat (rows.countP fun r => r.detected)) := by
  induction rows generalizing v with
  | nil => simp
  | cons r rs ih =>
      rw [List.foldl_cons, ih, List.length_cons, List.countP_cons, UInt16.ofNat_add,
        UInt16.ofNat_add]
      rw [UInt16.add_comm (UInt16.ofNat rs.length), UInt16.add_comm (UInt16.ofNat (rs.countP _)),
        ← UInt16.add_assoc, ← UInt16.add_assoc]
      cases h : r.detected <;> simp [countRow, h]

/-! ### The result -/

/-- The parts of a result agree with each other and with the truths that were scored. -/
structure Consistent (truths : List GroundTruth) (res : CampaignResult) : Prop where
  /-- No saturation takes place. -/
  balance : res.injected.toNat = res.detected.toNat + res.missed.toNat + res.physical.toNat
  injected : res.injected.toNat = res.rows.length
  /-- Row `i` is about truth `i`. -/
  rows : res.rows.map (fun r => (r.faultId, r.kind, r.atSeq)) =
    truths.map fun t => (t.faultId, t.kind, t.atSeq)
  detected : res.detected.toNat = res.rows.countP fun r => r.detected
  physical : res.physical.toNat = res.rows.countP fun r => (expectedDets r.kind).isEmpty
  physicalRows : ∀ r ∈ res.rows, (expectedDets r.kind).isEmpty = true →
    r.detected = false ∧ r.label = "physical"
  /-- Each kind is listed once, in increasing order. -/
  perKindSorted : res.perKind.Pairwise fun a b => a.kind < b.kind
  /-- The kinds listed are those that occur. -/
  perKindOccurs : ∀ k, k ∈ res.perKind.map KindStat.kind ↔ ∃ r ∈ res.rows, r.kind = k
  perKindCounts : ∀ e ∈ res.perKind,
    e.injected.toNat = (res.rows.countP fun r => r.kind = e.kind) ∧
    e.detected.toNat = res.rows.countP fun r => r.kind = e.kind && r.detected
  sumInjected : (res.perKind.map fun e => e.injected.toNat).sum = res.injected.toNat
  sumDetected : (res.perKind.map fun e => e.detected.toNat).sum = res.detected.toNat
  maxLatency : res.maxLatencyMs.toNat =
    ((res.rows.map fun r => r.latencyMs.toNat).max?).getD 0

variable {opts : Opts} {dets : List Detection} {truths : List GroundTruth}

/-- Only truths with an expectation are paired. -/
theorem scored_of_paired {r : GroundTruth × Option Match}
    (hr : r ∈ matchLoop opts.cadenceMs dets 0 truths) (hsome : r.2.isSome = true) :
    (expectedDets r.1.kind).isEmpty = false := by
  obtain ⟨m, hm⟩ := Option.isSome_iff_exists.mp hsome
  exact expectedDets_of_suits (matchLoop_spec hr hm).2.1

/-- The rows are those of the pairs of the matching loop, in order. -/
theorem rows_score :
    (score opts dets truths).rows = (matchLoop opts.cadenceMs dets 0 truths).map rowOf :=
  (Tally.foldl_add_eq _ .empty fun _ => scored_of_paired).1

/-- **The table by kind groups the rows.** -/
theorem perKind_eq_group :
    (score opts dets truths).perKind.map KindStat.entry =
      group Row.kind countRow (0, 0) (score opts dets truths).rows := by
  rw [rows_score]
  exact (Tally.foldl_add_eq _ .empty fun _ => scored_of_paired).2.2

/-- There is one row for each truth. -/
theorem length_rows_score : (score opts dets truths).rows.length = truths.length := by
  rw [rows_score, List.length_map, length_matchLoop]

/-- The counts of a kind are those of its rows, when the rows do not exceed the width of the
counters. -/
theorem counts_of_mem_perKind {e : KindStat} (he : e ∈ (score opts dets truths).perKind)
    (hlen : truths.length < 2 ^ 16) :
    e.injected.toNat = ((score opts dets truths).rows.countP fun r => r.kind = e.kind) ∧
      e.detected.toNat =
        (score opts dets truths).rows.countP fun r => r.kind = e.kind && r.detected := by
  have hmem : e.entry ∈ group Row.kind countRow (0, 0) (score opts dets truths).rows := by
    rw [← perKind_eq_group]
    exact List.mem_map_of_mem he
  obtain ⟨-, hcounts⟩ := mem_group_iff.mp hmem
  rw [foldl_countRow] at hcounts
  obtain ⟨hinj, hdet⟩ := Prod.mk.inj hcounts
  have hbound : ∀ p : Row → Bool, (score opts dets truths).rows.countP p < 2 ^ 16 :=
    fun p => List.countP_le_length.trans_lt (length_rows_score.trans_lt hlen)
  rw [hinj, hdet, UInt16.zero_add, UInt16.zero_add, ← List.countP_eq_length_filter,
    List.countP_filter]
  refine ⟨UInt16.toNat_ofNat_of_lt' (hbound _), ?_⟩
  rw [UInt16.toNat_ofNat_of_lt' (hbound _)]
  exact List.countP_congr fun r _ => by simp [and_comm]

/-- The kinds listed: each once, in increasing order, and those that occur. -/
theorem keys_perKind :
    ((score opts dets truths).perKind.Pairwise fun a b => a.kind < b.kind) ∧
      ∀ k, k ∈ (score opts dets truths).perKind.map KindStat.kind ↔
        ∃ r ∈ (score opts dets truths).rows, r.kind = k := by
  have hkeys : (score opts dets truths).perKind.map KindStat.kind =
      (group Row.kind countRow (0, 0) (score opts dets truths).rows).map Prod.fst := by
    rw [← perKind_eq_group, List.map_map]
    rfl
  refine ⟨?_, fun k => by rw [hkeys, mem_keys_group]⟩
  have hsorted : Sorted (group Row.kind countRow (0, 0) (score opts dets truths).rows) :=
    sorted_group
  rw [← perKind_eq_group, Sorted, List.pairwise_map] at hsorted
  exact hsorted

/-- Counts by kind sum up to the number of the rows counted. -/
theorem sum_perKind (p : Row → Bool) :
    ((score opts dets truths).perKind.map fun e =>
      (score opts dets truths).rows.countP fun r => r.kind = e.kind && p r).sum =
        (score opts dets truths).rows.countP p := by
  obtain ⟨hsorted, hkinds⟩ := @keys_perKind opts dets truths
  generalize score opts dets truths = res at hsorted hkinds ⊢
  have hnodup : (res.perKind.map KindStat.kind).Nodup :=
    List.pairwise_map.mpr (hsorted.imp fun h => Std.ne_of_lt h)
  have hcount : (fun e : KindStat => res.rows.countP fun r => r.kind = e.kind && p r) =
      (fun k => ((res.rows.filter p).map Row.kind).count k) ∘ KindStat.kind := by
    funext e
    rw [Function.comp_apply, List.count_eq_countP, List.countP_map, List.countP_filter]
    rfl
  rw [hcount, ← List.map_map, sum_map_count hnodup, List.length_map, List.countP_eq_length_filter]
  intro k hk
  obtain ⟨r, hr, rfl⟩ := List.mem_map.mp hk
  exact (hkinds r.kind).mpr ⟨r, (List.mem_filter.mp hr).1, rfl⟩

/-- The counters of the result, read off the rows. -/
theorem counters_score (hlen : truths.length < 2 ^ 16) :
    (score opts dets truths).injected.toNat = (score opts dets truths).rows.length ∧
      (score opts dets truths).detected.toNat =
        ((score opts dets truths).rows.countP fun r => r.detected) ∧
      (score opts dets truths).physical.toNat =
        (score opts dets truths).rows.countP fun r => (expectedDets r.kind).isEmpty := by
  obtain ⟨hinj, hdet, hphys⟩ := foldl_add_counters (matchLoop opts.cadenceMs dets 0 truths)
    Tally.empty (by rw [length_matchLoop]; exact (Nat.zero_add _).trans_lt hlen) le_rfl le_rfl
  simp only [Tally.empty, UInt16.toNat_zero, Nat.zero_add] at hinj hdet hphys
  rw [rows_score, List.length_map, List.countP_map, List.countP_map]
  refine ⟨hinj, hdet.trans ?_, hphys.trans ?_⟩
  · exact List.countP_congr fun r _ => by simp
  · exact List.countP_congr fun r _ => by simp

/-- Every row is detected, physical, or missed, and no saturation takes place. -/
theorem balance_score (hlen : truths.length < 2 ^ 16) :
    (score opts dets truths).injected.toNat =
      (score opts dets truths).detected.toNat + (score opts dets truths).missed.toNat +
        (score opts dets truths).physical.toNat := by
  obtain ⟨hinj, hdet, hphys⟩ := @counters_score opts dets truths hlen
  have hsplit := length_eq_of_scored (matchLoop opts.cadenceMs dets 0 truths)
    fun r hr => scored_of_paired hr
  rw [hinj, hdet, hphys, missed_score opts hlen, rows_score, List.length_map, List.countP_map,
    List.countP_map, hsplit]
  simp only [Function.comp_def, detected_rowOf, kind_rowOf]
  omega

/-- **The report of a campaign is self-consistent**, for every list of detections and every
list of truths that the counters can count. -/
theorem score_consistent (opts : Opts) (dets : List Detection) (truths : List GroundTruth)
    (hlen : truths.length ≤ 65535) : Consistent truths (score opts dets truths) := by
  have hlt : truths.length < 2 ^ 16 := Nat.lt_succ_of_le hlen
  obtain ⟨hinj, hdet, hphys⟩ := @counters_score opts dets truths hlt
  obtain ⟨hsorted, hkinds⟩ := @keys_perKind opts dets truths
  have hcounts : ∀ e ∈ (score opts dets truths).perKind, _ :=
    fun e he => counts_of_mem_perKind he hlt
  refine ⟨balance_score hlt, hinj, ?_, hdet, hphys, ?_, hsorted, hkinds, hcounts, ?_, ?_, ?_⟩
  · rw [rows_score, List.map_map]
    calc (matchLoop opts.cadenceMs dets 0 truths).map
          ((fun r : Row => (r.faultId, r.kind, r.atSeq)) ∘ rowOf)
        = ((matchLoop opts.cadenceMs dets 0 truths).map Prod.fst).map
            fun t => (t.faultId, t.kind, t.atSeq) := by
          rw [List.map_map]
          exact List.map_congr_left fun r _ => by simp
      _ = truths.map fun t => (t.faultId, t.kind, t.atSeq) := by rw [matchLoop_fst]
  · intro row hrow hphysical
    rw [rows_score] at hrow
    obtain ⟨r, hr, rfl⟩ := List.mem_map.mp hrow
    rw [kind_rowOf] at hphysical
    cases hm : r.2 with
    | none => simp [rowOf, hm, hphysical]
    | some m =>
        have hscored := scored_of_paired hr (by rw [hm]; rfl)
        exact absurd hphysical (by simp [hscored])
  · have hall := @sum_perKind opts dets truths fun _ => true
    simp only [List.countP_true, Bool.and_true] at hall
    rw [hinj, ← hall]
    exact congrArg List.sum (List.map_congr_left fun e he => (hcounts e he).1)
  · rw [hdet, ← sum_perKind fun r => r.detected]
    exact congrArg List.sum (List.map_congr_left fun e he => (hcounts e he).2)
  · obtain ⟨-, hlat, -⟩ := Tally.foldl_add_eq (matchLoop opts.cadenceMs dets 0 truths) .empty
      fun _ => scored_of_paired
    rw [rows_score, List.map_map]
    refine hlat.trans ?_
    cases matchLoop opts.cadenceMs dets 0 truths with
    | nil => rfl
    | cons r rs =>
        rw [List.map_cons, List.map_cons, List.max?_cons', Option.getD_some, List.foldl_cons]
        simp [Tally.empty, Function.comp_def]

/-- Two DROPs are matched, the later one after seven milliseconds; a CRC failure does not account
for the DELAY, which is missed, and the DUTY is physical. -/
theorem mixed_consistent :
    let truths : List GroundTruth :=
      [⟨1, faultDrop, 10, 0, ⟨0⟩⟩, ⟨2, faultDuty, 12, 0, ⟨0⟩⟩, ⟨3, faultDelay, 20, 0, ⟨5000000⟩⟩,
        ⟨4, faultDrop, 30, 0, ⟨10000000⟩⟩]
    let res := score ⟨true, 1, 100, 5, "fuzz", true⟩
      [⟨.gap, 11, ⟨2000000⟩, 0⟩, ⟨.crc, 20, ⟨5000000⟩, 0⟩, ⟨.gap, 31, ⟨17000000⟩, 0⟩] truths
    (res.detected, res.missed, res.physical, res.maxLatencyMs) = (2, 1, 1, 7) ∧
      Consistent truths res :=
  ⟨by decide +kernel, score_consistent _ _ _ (by decide)⟩

end FaultForge
