import FaultForge.Analog
import FaultForge.Lib.Monitor

/-!
# The Sampling Task

`adc_task` reads the converter's ring buffer for ever and updates the sampler with every
read. The packets it fills are those of a crate that is not part of the repository, so
their operations are a parameter (`PacketOps`); nothing below depends on them.

No addition of `update_analog` is a wrapping one. The sums and the scaled quotients of a
read fit, whatever its samples (`UpdateFits.of_count`); but `sample_count` adds up the
counts of all reads, and it fits exactly as long as their sum does.

## Main results

* `UpdateFits.exact`: an update without an overflow computes what it is meant to.
* `exists_run`: the task never leaves the buffer, and what it has counted.
* `samplingFits_iff`: when no arithmetic of a run overflows.
-/

namespace FaultForge

open AnalogSampler FloorMean

/-! ### The task -/

/-- The channels of the sampler. -/
inductive ChannelId where
  | analog0
  | analog1
deriving DecidableEq, Repr

/-- The operations of the packets. -/
structure PacketOps (P : Type) where
  new : P
  push : P → ChannelId → UInt32 → UInt32 → P
  isFull : P → Bool
  finalize : P → UInt16 → P

/-- What a read of the ring returns: the number of samples that were lost, or the buffer
after the read and the number of samples that were read into it. -/
inductive Read where
  | overrun (samples : ℕ)
  | ok (measurements : List.Vector UInt16 2048) (n : ℕ)

/-- The state of the task, with the packets it has sent. -/
structure AdcTask (P : Type) where
  sampler : AnalogSampler
  packet : P
  seq : UInt16
  lastTimestamp : UInt32
  sent : List P

/-- Whether a voltage is not reported: zero, or too large for its field. -/
def isnan (value : UInt32) : Bool :=
  value = 0 || value > 65535

/-- The buffer as a slice. -/
def Samples.ofVector (measurements : List.Vector UInt16 2048) : Samples :=
  ⟨measurements.toList, by simp⟩

variable {P : Type} (packets : PacketOps P)

namespace AdcTask

/-- The task before its first read: nothing is sent, and the packet at hand is new. -/
def init : AdcTask P :=
  ⟨AnalogSampler.new, packets.new, 0, 0, []⟩

/-- Push the voltages to the packet. -/
def pushSamples (packet : P) (timestamp : UInt32) (sampler : AnalogSampler) : P :=
  let packet :=
    if isnan sampler.pa0Mv then packet
    else packets.push packet .analog0 timestamp sampler.pa0Mv
  if isnan sampler.pa1Mv then packet
  else packets.push packet .analog1 timestamp sampler.pa1Mv

/-- One round of the loop. -/
def step (t : AdcTask P) : Read → Option (AdcTask P)
  | .overrun _ => some t
  | .ok measurements n =>
      let count := min n 2048
      if count = 0 then some t
      else do
        let sampler ← t.sampler.updateAnalog (Samples.ofVector measurements) count
        let packet := pushSamples packets t.packet t.lastTimestamp sampler
        let lastTimestamp := t.lastTimestamp + UInt32.ofNat count * 100
        if packets.isFull packet then
          return ⟨sampler, packets.new, t.seq + 1, lastTimestamp,
            t.sent ++ [packets.finalize packet t.seq]⟩
        else
          return ⟨sampler, packet, t.seq, lastTimestamp, t.sent⟩

/-- The task after a number of reads. -/
def run (reads : List Read) : Option (AdcTask P) :=
  reads.foldlM (step packets) (init packets)

end AdcTask

/-! ### What the task counts -/

/-- The samples of a read that are looked at. -/
def Read.samples : Read → List UInt16
  | .overrun _ => []
  | .ok measurements n => measurements.toList.take (min n 2048)

/-- What a read adds to the count: a single sample is no update. -/
def Read.counted (r : Read) : ℕ :=
  if r.samples.length < 2 then 0 else r.samples.length

/-- What the reads add in total. -/
def totalCounted (reads : List Read) : ℕ :=
  (reads.map Read.counted).sum

/-- A read gives as many samples as it says, but no more than the buffer has. -/
theorem Read.length_samples_ok (measurements : List.Vector UInt16 2048) (n : ℕ) :
    (Read.ok measurements n).samples.length = min n 2048 := by
  simp [Read.samples]

/-- So no read gives more than the buffer has. -/
theorem Read.length_samples_le (r : Read) : r.samples.length ≤ 2048 := by
  cases r with
  | overrun samples => exact Nat.zero_le _
  | ok measurements n =>
      rw [Read.length_samples_ok]
      exact Nat.min_le_right ..

/-- The counts of reads in two parts. -/
theorem totalCounted_append (reads reads' : List Read) :
    totalCounted (reads ++ reads') = totalCounted reads + totalCounted reads' := by
  rw [totalCounted, List.map_append, List.sum_append, ← totalCounted, ← totalCounted]

/-- The count of one read. -/
theorem totalCounted_singleton (r : Read) : totalCounted [r] = r.counted := by
  simp [totalCounted]

/-- An update counts the samples, and stays within the buffer. -/
theorem exists_updateAnalog (sampler : AnalogSampler) (measurements : List.Vector UInt16 2048)
    (n : ℕ) :
    ∃ sampler', sampler.updateAnalog (Samples.ofVector measurements) (min n 2048) =
        some sampler' ∧
      sampler'.sampleCount =
        sampler.sampleCount + UInt32.ofNat (Read.ok measurements n).counted := by
  rw [Read.counted, Read.length_samples_ok]
  by_cases hfew : min n 2048 < 2
  · exact ⟨sampler, if_pos hfew, by simp [hfew]⟩
  · have hlen : min n 2048 ≤ (Samples.ofVector measurements).toList.length := by
      simp [Samples.ofVector]
    rw [updateAnalog_eq_some sampler (Nat.not_lt.mp hfew) hlen, if_neg hfew]
    exact ⟨_, rfl, rfl⟩

/-- **One round** counts what the read adds. -/
theorem exists_step (t : AdcTask P) (r : Read) :
    ∃ t', t.step packets r = some t' ∧
      t'.sampler.sampleCount = t.sampler.sampleCount + UInt32.ofNat r.counted := by
  cases r with
  | overrun samples => exact ⟨t, rfl, by simp [Read.counted, Read.samples]⟩
  | ok measurements n =>
      by_cases hzero : min n 2048 = 0
      · refine ⟨t, if_pos hzero, ?_⟩
        simp [Read.counted, Read.length_samples_ok, hzero]
      · obtain ⟨sampler, hupdate, hcount⟩ := exists_updateAnalog t.sampler measurements n
        simp only [AdcTask.step, if_neg hzero, hupdate, Option.bind_eq_bind, Option.bind_some]
        split
        · refine ⟨_, rfl, ?_⟩
          exact hcount
        · refine ⟨_, rfl, ?_⟩
          exact hcount

/-- **A run** never leaves the buffer, and counts what the reads add. -/
theorem exists_run (reads : List Read) :
    ∃ t, AdcTask.run packets reads = some t ∧
      t.sampler.sampleCount = UInt32.ofNat (totalCounted reads) := by
  induction reads using List.reverseRecOn with
  | nil => exact ⟨_, rfl, rfl⟩
  | append_singleton reads r ih =>
      obtain ⟨t, hrun, hcount⟩ := ih
      obtain ⟨t', hstep, hcount'⟩ := exists_step packets t r
      refine ⟨t', ?_, ?_⟩
      · rw [AdcTask.run, List.foldlM_append, ← AdcTask.run, hrun]
        simpa using hstep
      · rw [hcount', hcount, totalCounted_append, totalCounted_singleton, UInt32.ofNat_add]

/-! ### Overflow -/

/-- No operation of an update on these samples overflows: neither the sums of the channels,
nor the scaling of their quotients, nor the count. -/
structure UpdateFits (sampler : AnalogSampler) (xs : List UInt16) : Prop where
  evenSum : total (evenIndexed xs) < 2 ^ 32
  oddSum : total (oddIndexed xs) < 2 ^ 32
  evenMv : total (evenIndexed xs) / (xs.length / 2) * 3300 < 2 ^ 32
  oddMv : total (oddIndexed xs) / (xs.length / 2) * 3300 < 2 ^ 32
  sampleCount : sampler.sampleCount.toNat + xs.length < 2 ^ 32

/-- **An update that fits computes exactly.** -/
theorem UpdateFits.exact {sampler : AnalogSampler} {measurements : Samples} {count : ℕ}
    (h2 : 2 ≤ count) (hlen : count ≤ measurements.toList.length)
    (h : UpdateFits sampler (measurements.toList.take count)) :
    ∃ sampler', sampler.updateAnalog measurements count = some sampler' ∧
      sampler'.pa0Mv.toNat =
        scale 3300 4095 (total (evenIndexed (measurements.toList.take count)) / (count / 2)) ∧
      sampler'.pa1Mv.toNat =
        scale 3300 4095 (total (oddIndexed (measurements.toList.take count)) / (count / 2)) ∧
      sampler'.sampleCount.toNat = sampler.sampleCount.toNat + count := by
  have hslice := measurements.length_lt
  have hcount : (measurements.toList.take count).length = count := by
    rw [List.length_take, Nat.min_eq_left hlen]
  have hmv : ∀ xs, total xs < 2 ^ 32 → total xs / (count / 2) * 3300 < 2 ^ 32 →
      (countsToMv (sumU32 xs / UInt32.ofNat (count / 2))).toNat =
        scale 3300 4095 (total xs / (count / 2)) := by
    intro xs hsum hscale
    rw [sumU32_div_ofNat xs (by omega), Nat.mod_eq_of_lt hsum, toNat_countsToMv_ofNat hscale]
  obtain ⟨hsum, hsum', hscale, hscale', hfits⟩ := h
  rw [hcount] at hscale hscale' hfits
  refine ⟨_, updateAnalog_eq_some sampler h2 hlen, hmv _ hsum hscale, hmv _ hsum' hscale', ?_⟩
  rw [UInt32.toNat_add, UInt32.toNat_ofNat_of_lt' (by omega : count < 2 ^ 32),
    Nat.mod_eq_of_lt hfits]

/-- No operation of any update in the run overflows. -/
def SamplingFits (reads : List Read) : Prop :=
  Monitor.Safe (fun before r => ∀ t, AdcTask.run packets before = some t →
    2 ≤ r.samples.length → UpdateFits t.sampler r.samples) reads

/-- The sum and the scaled quotient of a channel fit, whatever its samples. -/
theorem channel_fits (xs : List UInt16) {half : ℕ} (hhalf : 0 < half) (hle : half ≤ 1024)
    (hlen : xs.length = half ∨ xs.length = half + 1) :
    total xs < 2 ^ 32 ∧ total xs / half * 3300 < 2 ^ 32 := by
  have hsum : total xs ≤ xs.length * 65535 := total_le fun x _ => Nat.le_of_lt_succ x.toNat_lt
  have hquot : total xs / half ≤ 2 * 65535 := div_half_le hhalf hlen hsum
  constructor
  · calc total xs ≤ xs.length * 65535 := hsum
      _ ≤ 1025 * 65535 := Nat.mul_le_mul_right _ (by omega)
      _ < 2 ^ 32 := by decide
  · calc total xs / half * 3300 ≤ 2 * 65535 * 3300 := Nat.mul_le_mul_right _ hquot
      _ < 2 ^ 32 := by decide

/-- **Only the count can overflow.** -/
theorem UpdateFits.of_count {sampler : AnalogSampler} {xs : List UInt16} (h2 : 2 ≤ xs.length)
    (hlen : xs.length ≤ 2048) (h : sampler.sampleCount.toNat + xs.length < 2 ^ 32) :
    UpdateFits sampler xs := by
  have hhalf : 0 < xs.length / 2 := Nat.div_pos h2 Nat.two_pos
  have heven : (evenIndexed xs).length = (xs.length + 1) / 2 := length_stepByTwo xs
  have hodd := length_oddIndexed xs
  obtain ⟨hsum, hmv⟩ := channel_fits (evenIndexed xs) hhalf (by omega) (by omega)
  obtain ⟨hsum', hmv'⟩ := channel_fits (oddIndexed xs) hhalf (by omega) (by omega)
  exact ⟨hsum, hsum', hmv, hmv', h⟩

/-- When nothing has overflowed so far, the next read adds to the exact count. -/
theorem updateFits_iff {reads : List Read} (hreads : totalCounted reads < 2 ^ 32) {t : AdcTask P}
    (hrun : AdcTask.run packets reads = some t) (r : Read) :
    (2 ≤ r.samples.length → UpdateFits t.sampler r.samples) ↔
      totalCounted (reads ++ [r]) < 2 ^ 32 := by
  obtain ⟨t', hrun', hcount⟩ := exists_run packets reads
  obtain rfl := Option.some.inj (hrun.symm.trans hrun')
  have hexact : t.sampler.sampleCount.toNat = totalCounted reads := by
    rw [hcount, UInt32.toNat_ofNat_of_lt' hreads]
  rw [totalCounted_append, totalCounted_singleton, Read.counted]
  split
  · next hfew => exact iff_of_true (fun h2 => absurd hfew (Nat.not_lt.mpr h2)) hreads
  · next hmany =>
    rw [← hexact]
    exact ⟨fun h => (h (Nat.not_lt.mp hmany)).sampleCount,
      fun h h2 => UpdateFits.of_count h2 r.length_samples_le h⟩

/-- A run without an overflow has counted less than `2 ^ 32` samples. -/
theorem totalCounted_lt_of_samplingFits {reads : List Read} (h : SamplingFits packets reads) :
    totalCounted reads < 2 ^ 32 := by
  induction reads using List.reverseRecOn with
  | nil => decide
  | append_singleton reads r ih =>
      obtain ⟨hreads, hlast⟩ := Monitor.safe_append.mp h
      obtain ⟨t, hrun, -⟩ := exists_run packets reads
      refine (updateFits_iff packets (ih hreads) hrun r).mp ?_
      exact hlast [] r [] rfl t (by rwa [List.append_nil])

/-- **When no arithmetic of a run overflows**: iff the reads add less than `2 ^ 32` samples. -/
theorem samplingFits_iff (reads : List Read) :
    SamplingFits packets reads ↔ totalCounted reads < 2 ^ 32 := by
  refine ⟨totalCounted_lt_of_samplingFits packets, ?_⟩
  rintro hlt before r after rfl t hrun
  have hsplit : totalCounted (before ++ r :: after) =
      totalCounted (before ++ [r]) + totalCounted after := by
    rw [← totalCounted_append, List.append_assoc, List.singleton_append]
  have hbefore := totalCounted_append before [r]
  exact (updateFits_iff packets (by omega) hrun r).mpr (by omega)

/-- Reads that fill the buffer overflow the count with the `2 ^ 21`st. -/
theorem full_reads_overflow :
    ¬ ∀ (P : Type) (packets : PacketOps P) (reads : List Read), SamplingFits packets reads := by
  intro h
  have hlt := totalCounted_lt_of_samplingFits
    ⟨(), fun p _ _ _ => p, fun _ => false, fun p _ => p⟩
    (h Unit _ (List.replicate (2 ^ 21) (.ok (List.Vector.replicate 2048 0) 2048)))
  have hcounted : (Read.ok (List.Vector.replicate 2048 0) 2048).counted = 2048 := by
    rw [Read.counted, Read.length_samples_ok]
    rfl
  rw [totalCounted, List.map_replicate, List.sum_replicate, hcounted] at hlt
  exact absurd hlt (by decide)

end FaultForge
