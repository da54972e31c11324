import FaultForge.Replays

/-!
# Lossy Links

A link that loses or corrupts frames, but neither doubles nor reorders them: of the sensor frames
that are still heard the numbers increase. Whatever comes between them, the sequence check
compares each with the one heard before it (`FaultForge.Sequence`), so it records one gap wherever
numbers are missing between two of them, and nothing else. But it is one gap for a whole run of
missing numbers, so the number of the gaps is that of the losses only if no two losses are
neighbours.

## Main results

* `anomalies_lossy`: the anomalies of a lossy stream.
* `gaps_of_losses`: what a campaign records of a lossy stream, and how much of it it misses.
-/

namespace FaultForge

/-! ### Missing numbers -/

/-- A gap at each number that is not the next one after that before it. -/
def gapsOf : List UInt16 → List (DetKind × UInt16)
  | a :: b :: ss => (if b = a + 1 then [] else [(.gap, b)]) ++ gapsOf (b :: ss)
  | _ => []

/-- How many numbers are missing in an increasing list. -/
def lostBetween : List UInt16 → ℕ
  | a :: b :: ss => (b.toNat - a.toNat - 1) + lostBetween (b :: ss)
  | _ => 0

/-- The next number, of two that increase. -/
theorem eq_add_one_iff {a b : UInt16} (h : a.toNat < b.toNat) :
    b = a + 1 ↔ b.toNat = a.toNat + 1 := by
  have hb := b.toNat_lt
  have hone : (1 : UInt16).toNat = 1 := rfl
  rw [← UInt16.toNat_inj, UInt16.toNat_add, hone, Nat.mod_eq_of_lt (by omega)]

/-- **There are no more gaps than missing numbers**, and as many only if no two missing ones are
neighbours. -/
theorem length_gapsOf {seqs : List UInt16} (h : seqs.IsChain fun a b => a.toNat < b.toNat) :
    (gapsOf seqs).length ≤ lostBetween seqs ∧
      ((gapsOf seqs).length = lostBetween seqs ↔
        seqs.IsChain fun a b => b.toNat ≤ a.toNat + 2) := by
  induction seqs with
  | nil => simp [gapsOf, lostBetween]
  | cons a seqs ih =>
      cases seqs with
      | nil => simp [gapsOf, lostBetween]
      | cons b ss =>
          obtain ⟨hab, hrest⟩ := List.isChain_cons_cons.mp h
          obtain ⟨hle, heq⟩ := ih hrest
          rw [gapsOf, lostBetween, List.length_append, List.isChain_cons_cons, ← heq]
          by_cases hnext : b = a + 1
          · rw [if_pos hnext, List.length_nil]
            rw [eq_add_one_iff hab] at hnext
            omega
          · rw [if_neg hnext, List.length_singleton]
            rw [eq_add_one_iff hab] at hnext
            omega

/-! ### The sequence check -/

/-- Of two frames that are heard in a row, the second has a higher number, and if it is the
next one it comes in time. -/
def InOrder (cadenceMs : UInt16) (x y : Clock × DuFrame) : Prop :=
  x.2.seq.toNat < y.2.seq.toNat ∧ (y.2.seq = x.2.seq + 1 → OnTime cadenceMs x y)

instance (cadenceMs : UInt16) (x y : Clock × DuFrame) : Decidable (InOrder cadenceMs x y) :=
  inferInstanceAs (Decidable (_ ∧ (_ → _)))

variable {cadenceMs : UInt16} {x y : Clock × DuFrame}

/-- A frame that skips numbers is taken for a gap, whenever it comes. -/
theorem pairCheck_skip (hlt : x.2.seq.toNat < y.2.seq.toNat) (hskip : y.2.seq ≠ x.2.seq + 1) :
    pairCheck cadenceMs x y = some .gap := by
  have hy := y.2.seq.toNat_lt
  have hone : (1 : UInt16).toNat = 1 := rfl
  have hsame : y.2.seq ≠ x.2.seq := fun h => by rw [h] at hlt; omega
  have hgap : x.2.seq + 1 < y.2.seq := by
    have hne := mt (eq_add_one_iff hlt).mpr hskip
    rw [UInt16.lt_iff_toNat_lt, UInt16.toNat_add, hone, Nat.mod_eq_of_lt (by omega)]
    omega
  simp [pairCheck, hskip, hsame, hgap]

/-- Of two frames in order, the check sees whether numbers are missing between them. -/
theorem InOrder.pairCheck (h : InOrder cadenceMs x y) :
    pairCheck cadenceMs x y = if y.2.seq = x.2.seq + 1 then none else some .gap := by
  split
  · next hnext => exact pairCheck_eq_none hnext (h.2 hnext)
  · next hskip => exact pairCheck_skip h.1 hskip

/-- **The anomalies of a lossy stream** are its gaps. -/
theorem anomalies_lossy {ys : List (Clock × DuFrame)} (h : ys.IsChain (InOrder cadenceMs)) :
    anomalies cadenceMs none ys = gapsOf (ys.map fun y => y.2.seq) := by
  have hbehind : ∀ (ys : List (Clock × DuFrame)) (x : Clock × DuFrame),
      (x :: ys).IsChain (InOrder cadenceMs) →
        anomalies cadenceMs (some x) ys = gapsOf (x.2.seq :: ys.map fun y => y.2.seq) := by
    intro ys
    induction ys with
    | nil => exact fun _ _ => rfl
    | cons y ys ih =>
        intro x h
        obtain ⟨hxy, hrest⟩ := List.isChain_cons_cons.mp h
        rw [anomalies, ih y hrest, Option.bind_some, hxy.pairCheck, List.map_cons, gapsOf]
        split <;> rfl
  cases ys with
  | nil => rfl
  | cons y ys => exact hbehind ys y h

/-- **The gaps of a lossy stream.** Let the numbers of the sensor frames that are heard increase,
and two that follow each other come in time, whatever junk, corrupted and other frames there are
in between. Then the sequence check records one gap, in order, at each frame behind missing
numbers, and nothing else. There are no more gaps than numbers missing between two frames heard,
and fewer iff two neighbouring numbers are missing somewhere. What is lost before the first frame
heard or behind the last one leaves no gap. -/
theorem gaps_of_losses {arrivals : List (Clock × DuFrame)}
    (h : ((processed arrivals).filter fun x => Dut.heard x.2).IsChain (InOrder cadenceMs)) :
    let seqs := ((processed arrivals).filter fun x => Dut.heard x.2).map fun x => x.2.seq
    let found := (receive (.new cadenceMs) [] arrivals).1.detections.filter Detection.ofSequence
    found.map Detection.note = gapsOf seqs ∧
      found.length ≤ lostBetween seqs ∧
      (found.length = lostBetween seqs ↔ seqs.IsChain fun a b => b.toNat ≤ a.toNat + 2) := by
  intro seqs found
  have hfound : found.map Detection.note = gapsOf seqs := by
    have hfeed := feed_anomalies (baseline_new cadenceMs) (processed arrivals)
    rw [← receive_fst (.new cadenceMs) []] at hfeed
    refine hfeed.trans ?_
    rw [show (Dut.new cadenceMs).cadenceMs = cadenceMs from rfl, anomalies_lossy h]
    rfl
  have hincrease : seqs.IsChain fun a b => a.toNat < b.toNat :=
    List.isChain_map_of_isChain _ (fun _ _ hxy => hxy.1) h
  obtain ⟨hle, heq⟩ := length_gapsOf hincrease
  rw [← hfound, List.length_map] at hle heq
  exact ⟨hfound, hle, heq⟩

/-- The numbers 1, 4, 5 and 6 are lost, with a corrupted frame in between. -/
theorem gaps_of_four_losses :
    let arrivals := [sensorAt 0 0, sensorAt 10 2, (fun _ => ⟨12000000⟩, .ofDecoded (.badCrc 7)),
      sensorAt 15 3, sensorAt 100 7]
    let seqs := ((processed arrivals).filter fun x => Dut.heard x.2).map fun x => x.2.seq
    let found := (receive (.new 5) [] arrivals).1.detections.filter Detection.ofSequence
    found.map Detection.note = gapsOf seqs ∧
      found.length ≤ lostBetween seqs ∧
      (found.length = lostBetween seqs ↔ seqs.IsChain fun a b => b.toNat ≤ a.toNat + 2) :=
  gaps_of_losses (by decide +kernel)

end FaultForge
