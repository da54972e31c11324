import FaultForge.Lib.Batching
import FaultForge.Sampling

/-!
# The Packets of the Sampling Task

A read of the ring puts up to two samples in the packet, and the packet is sent with the read
that fills it. What a read reports is said here without the task: the time at which it begins is a
hundred times the number of samples looked at before it, a lost stretch not counted, and the
voltages are those of the last read that had two samples at least (`latest`), so that a read of a
single sample reports an earlier one again.

The task refines the cutting of these reports into batches (`run_eq_cut`): a packet that is sent
stands for a batch and the packet at hand for what has been gathered since.

## Main results

* `run_eq_cut`: what a run of the task has sent, and what it holds.
* `packets_sent`: put end to end, the samples pushed are those of the run.
-/

namespace FaultForge

open AnalogSampler Batching

/-! ### What the reads report -/

/-- A sample, as it is pushed to a packet. -/
structure Sample where
  channel : ChannelId
  timestamp : UInt32
  value : UInt32
deriving DecidableEq, Repr

/-- The voltages of both channels, as the sampler takes them from the samples of a read. -/
def Read.voltages (r : Read) : UInt32 × UInt32 :=
  (countsToMv (sumU32 (evenIndexed r.samples) / UInt32.ofNat (r.samples.length / 2)),
    countsToMv (sumU32 (oddIndexed r.samples) / UInt32.ofNat (r.samples.length / 2)))

/-- The voltages of the last read with two samples at least. -/
def latest (reads : List Read) : UInt32 × UInt32 :=
  ((reads.filter fun r => 2 ≤ r.samples.length).getLast?.map Read.voltages).getD (0, 0)

/-- A hundred times the number of samples looked at. -/
def ticks (reads : List Read) : UInt32 :=
  UInt32.ofNat (100 * (reads.map fun r => r.samples.length).sum)

/-- The voltages that are reported: those that are neither zero nor too large. -/
def reported (timestamp : UInt32) (mv : UInt32 × UInt32) : List Sample :=
  (if isnan mv.1 then [] else [⟨.analog0, timestamp, mv.1⟩]) ++
    if isnan mv.2 then [] else [⟨.analog1, timestamp, mv.2⟩]

/-- What a read reports, behind others: a read without samples reports nothing at all. -/
def reports (before : List Read) (r : Read) : List (List Sample) :=
  if r.samples = [] then [] else [reported (ticks before) (latest (before ++ [r]))]

/-- What the reads report, one list for each read that has samples. -/
def allReports (reads : List Read) : List (List Sample) :=
  (List.range reads.length).flatMap fun i => (reads[i]?.map (reports (reads.take i))).getD []

/-- A further read adds its own report. -/
theorem allReports_concat (reads : List Read) (r : Read) :
    allReports (reads ++ [r]) = allReports reads ++ reports reads r := by
  have hearlier : (List.range reads.length).flatMap
      (fun i => ((reads ++ [r])[i]?.map (reports ((reads ++ [r]).take i))).getD []) =
        allReports reads := by
    refine List.flatMap_congr fun i hi => ?_
    have hlt := List.mem_range.mp hi
    rw [List.getElem?_append_left hlt, List.take_append_of_le_length hlt.le]
  rw [allReports, List.length_append, List.length_singleton, List.range_succ, List.flatMap_append,
    hearlier, List.flatMap_singleton, List.getElem?_concat_length, List.take_left]
  rfl

/-- A further read takes as many ticks as a hundred times its samples. -/
theorem ticks_concat (reads : List Read) (r : Read) :
    ticks (reads ++ [r]) = ticks reads + UInt32.ofNat r.samples.length * 100 := by
  rw [ticks, ticks, List.map_append, List.sum_append, List.map_singleton, List.sum_singleton,
    Nat.mul_add, UInt32.ofNat_add, UInt32.ofNat_mul _ r.samples.length, UInt32.mul_comm]
  rfl

/-- A read of two samples or more gives the latest voltages. -/
theorem latest_concat {r : Read} (h : 2 ≤ r.samples.length) (reads : List Read) :
    latest (reads ++ [r]) = r.voltages := by
  rw [latest, List.filter_append, List.filter_singleton, decide_eq_true h]
  simp

/-- A read of a single sample leaves the voltages. -/
theorem latest_concat_few {r : Read} (h : r.samples.length < 2) (reads : List Read) :
    latest (reads ++ [r]) = latest reads := by
  rw [latest, List.filter_append, List.filter_singleton, decide_eq_false (Nat.not_le.mpr h)]
  simp [latest]

/-! ### Packets as batches -/

variable {P : Type} (packets : PacketOps P)

namespace PacketOps

/-- The packet that these samples have been pushed to. -/
def filled (xs : List Sample) : P :=
  xs.foldl (fun p x => packets.push p x.channel x.timestamp x.value) packets.new

/-- What the task pushes to a packet is what is reported. -/
theorem pushSamples_filled (xs : List Sample) (timestamp : UInt32) (sampler : AnalogSampler) :
    AdcTask.pushSamples packets (packets.filled xs) timestamp sampler =
      packets.filled (xs ++ reported timestamp (sampler.pa0Mv, sampler.pa1Mv)) := by
  simp only [AdcTask.pushSamples, reported, filled]
  split <;> split <;> simp [List.foldl_append]

end PacketOps

/-- Whether the packet of these samples is full. -/
def full (xs : List Sample) : Bool :=
  packets.isFull (packets.filled xs)

/-- What the task has done with the reads: its packets are the batches of what the reads
report. -/
structure AdcTask.Packed (reads : List Read) (t : AdcTask P) : Prop where
  voltages : (t.sampler.pa0Mv, t.sampler.pa1Mv) = latest reads
  lastTimestamp : t.lastTimestamp = ticks reads
  packet : t.packet = packets.filled (cut (full packets) (allReports reads)).2
  seq : t.seq = UInt16.ofNat (cut (full packets) (allReports reads)).1.length
  sent : t.sent = (cut (full packets) (allReports reads)).1.mapIdx
    fun i batch => packets.finalize (packets.filled batch) (UInt16.ofNat i)

/-- The sampler after an update holds the voltages that are the latest then. -/
theorem updateAnalog_latest {before : List Read} {sampler : AnalogSampler}
    (h : (sampler.pa0Mv, sampler.pa1Mv) = latest before)
    (measurements : List.Vector UInt16 2048) (n : ℕ) :
    ∃ sampler', sampler.updateAnalog (Samples.ofVector measurements) (min n 2048) =
        some sampler' ∧
      (sampler'.pa0Mv, sampler'.pa1Mv) = latest (before ++ [.ok measurements n]) := by
  have hlen := Read.length_samples_ok measurements n
  by_cases hfew : min n 2048 < 2
  · exact ⟨sampler, if_pos hfew, by rw [h, latest_concat_few (by omega) before]⟩
  · have hwithin : min n 2048 ≤ (Samples.ofVector measurements).toList.length := by
      simp [Samples.ofVector]
    refine ⟨_, updateAnalog_eq_some sampler (Nat.not_lt.mp hfew) hwithin, ?_⟩
    rw [latest_concat (by omega) before, Read.voltages, hlen]
    rfl

/-- A read without samples leaves the task as it is. -/
theorem AdcTask.Packed.of_idle {reads : List Read} {t : AdcTask P}
    (h : AdcTask.Packed packets reads t) {r : Read} (hnone : r.samples = []) :
    AdcTask.Packed packets (reads ++ [r]) t := by
  have hlatest := latest_concat_few (by simp [hnone] : r.samples.length < 2) reads
  have hticks : ticks (reads ++ [r]) = ticks reads := by
    rw [ticks_concat, hnone]
    exact UInt32.add_zero _
  have hreports : allReports (reads ++ [r]) = allReports reads := by
    rw [allReports_concat, reports, if_pos hnone, List.append_nil]
  refine ⟨by rw [h.voltages, hlatest], by rw [h.lastTimestamp, hticks], ?_, ?_, ?_⟩
  · rw [hreports, h.packet]
  · rw [hreports, h.seq]
  · rw [hreports, h.sent]

/-- **One round** of the task. -/
theorem packed_step {reads : List Read} {t : AdcTask P} (h : AdcTask.Packed packets reads t)
    (r : Read) :
    ∃ t', t.step packets r = some t' ∧ AdcTask.Packed packets (reads ++ [r]) t' := by
  cases r with
  | overrun samples => exact ⟨t, rfl, h.of_idle packets rfl⟩
  | ok measurements n =>
      have hlen := Read.length_samples_ok measurements n
      by_cases hzero : min n 2048 = 0
      · exact ⟨t, if_pos hzero, h.of_idle packets (List.eq_nil_of_length_eq_zero (by omega))⟩
      · have hsome : (Read.ok measurements n).samples ≠ [] :=
          List.ne_nil_of_length_pos (by omega)
        obtain ⟨sampler, hupdate, hvoltages⟩ := updateAnalog_latest h.voltages measurements n
        have hpacket := packets.pushSamples_filled (cut (full packets) (allReports reads)).2
          (ticks reads) sampler
        have hreports : allReports (reads ++ [.ok measurements n]) =
            allReports reads ++ [reported (ticks reads) (sampler.pa0Mv, sampler.pa1Mv)] := by
          rw [allReports_concat, reports, if_neg hsome, hvoltages]
        have hcut : cut (full packets) (allReports (reads ++ [.ok measurements n])) =
            add (full packets) (cut (full packets) (allReports reads))
              (reported (ticks reads) (sampler.pa0Mv, sampler.pa1Mv)) := by
          rw [hreports, cut_concat]
        have htimestamp : ticks reads + UInt32.ofNat (min n 2048) * 100 =
            ticks (reads ++ [.ok measurements n]) := by
          rw [ticks_concat, hlen]
        simp only [AdcTask.step, if_neg hzero, hupdate, Option.bind_eq_bind, Option.bind_some,
          h.packet, h.lastTimestamp, hpacket]
        split
        · next hfull =>
          rw [add, full, if_pos hfull] at hcut
          refine ⟨_, rfl, hvoltages, htimestamp, ?_, ?_, ?_⟩
          · rw [hcut]
            rfl
          · rw [hcut, h.seq, List.length_append, List.length_singleton, UInt16.ofNat_add]
            rfl
          · rw [hcut, h.sent, h.seq, List.mapIdx_concat]
        · next hroom =>
          rw [add, full, if_neg hroom] at hcut
          refine ⟨_, rfl, hvoltages, htimestamp, ?_, ?_, ?_⟩
          · rw [hcut]
          · rw [hcut, h.seq]
          · rw [hcut, h.sent]

/-- **What a run of the task has sent, and what it holds.** -/
theorem run_eq_cut (reads : List Read) :
    ∃ t, AdcTask.run packets reads = some t ∧ AdcTask.Packed packets reads t := by
  induction reads using List.reverseRecOn with
  | nil => exact ⟨_, rfl, rfl, rfl, rfl, rfl, rfl⟩
  | append_singleton reads r ih =>
      obtain ⟨t, hrun, hpacked⟩ := ih
      obtain ⟨t', hstep, hpacked'⟩ := packed_step packets hpacked r
      refine ⟨t', ?_, hpacked'⟩
      rw [AdcTask.run, List.foldlM_append, ← AdcTask.run, hrun]
      simpa using hstep

/-- **The samples of the run are pushed.** Whatever a packet is and whenever it is full, the task
sends packets that are numbered in order, and put end to end the samples pushed to the packets sent
and to the one at hand are those that the reads report: each is pushed once, in order. What a packet
makes of a sample that it has no room for is left to the packet. A packet is sent only if it is
full, and one that is kept is not. -/
theorem packets_sent (reads : List Read) :
    ∃ (t : AdcTask P) (batches : List (List Sample)) (atHand : List Sample),
      AdcTask.run packets reads = some t ∧
      t.sent = batches.mapIdx
        (fun i batch => packets.finalize (packets.filled batch) (UInt16.ofNat i)) ∧
      t.packet = packets.filled atHand ∧
      batches.flatten ++ atHand = (allReports reads).flatten ∧
      (∀ batch ∈ batches, packets.isFull (packets.filled batch) = true) ∧
      (packets.isFull packets.new = false → packets.isFull t.packet = false) := by
  obtain ⟨t, hrun, hpacked⟩ := run_eq_cut packets reads
  refine ⟨t, _, _, hrun, hpacked.sent, hpacked.packet, flatten_cut _ _,
    fun batch => full_of_mem_cut _, fun hnew => ?_⟩
  rw [hpacked.packet]
  exact not_full_cut (full packets) hnew _

end FaultForge
