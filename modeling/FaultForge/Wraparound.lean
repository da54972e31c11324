import FaultForge.Sequence

/-!
# The Sequence Check across the Wrap

Sequence numbers count modulo `2 ^ 16`, so the check of a stream should not depend on where
in this circle the stream starts: with a constant added to every number, it should record
the same anomalies, at the shifted numbers (`ShiftInvariant`).

The check takes the number it expects next modulo `2 ^ 16`, but then asks which of two
different numbers is ahead by comparing them as integers. Adding a constant keeps that order
when both numbers wrap or none does, and turns it around when one of them wraps
(`add_lt_add_iff`). So the check is shift invariant for the streams, and only those, in
which the two numbers of every such comparison wrap together.

## Main results

* `pairCheck_shift_iff`: when the check of one frame survives the shift.
* `shiftInvariant_iff`: when the checks of a whole stream do.
-/

namespace FaultForge

/-! ### Adding a constant -/

/-- Adding the constant to the number goes past `2 ^ 16`. -/
def Carries (c s : UInt16) : Prop :=
  2 ^ 16 ≤ s.toNat + c.toNat

instance (c s : UInt16) : Decidable (Carries c s) :=
  inferInstanceAs (Decidable (_ ≤ _))

/-- Adding a constant keeps the order of two different numbers iff both of them wrap or
none does. -/
theorem add_lt_add_iff {a b : UInt16} (c : UInt16) (hne : a ≠ b) :
    (a + c < b + c ↔ a < b) ↔ (Carries c a ↔ Carries c b) := by
  have hne' : a.toNat ≠ b.toNat := mt UInt16.toNat_inj.mp hne
  have ha := a.toNat_lt
  have hb := b.toNat_lt
  have hc := c.toNat_lt
  simp only [UInt16.lt_iff_toNat_lt, UInt16.toNat_add, Carries]
  omega

/-- The frame with a constant added to its sequence number. -/
def DuFrame.shift (c : UInt16) (f : DuFrame) : DuFrame :=
  { f with payload := ⟨putU16 f.payload.toList 0 (f.seq + c), by simp⟩ }

/-- The stream with a constant added to every sequence number. -/
def shift (c : UInt16) (arrivals : List (Clock × DuFrame)) : List (Clock × DuFrame) :=
  arrivals.map fun x => (x.1, x.2.shift c)

/-- A shift adds to the number of the frame. -/
@[simp] theorem seq_shift (c : UInt16) (f : DuFrame) : (f.shift c).seq = f.seq + c :=
  getU16_putU16 f.payload.toList 0 (f.seq + c) (by rw [f.payload.toList_length]; decide)

/-- The check hears the same frames. -/
@[simp] theorem heard_shift (c : UInt16) (f : DuFrame) : Dut.heard (f.shift c) = Dut.heard f :=
  rfl

/-! ### One comparison -/

/-- The numbers that the check compares as integers, if any, wrap together. -/
def WrapsAlike (c : UInt16) (x y : Clock × DuFrame) : Prop :=
  y.2.seq ≠ x.2.seq → y.2.seq ≠ x.2.seq + 1 → (Carries c (x.2.seq + 1) ↔ Carries c y.2.seq)

instance (c : UInt16) (x y : Clock × DuFrame) : Decidable (WrapsAlike c x y) :=
  inferInstanceAs (Decidable (_ → _))

variable {cadenceMs c : UInt16} {x y : Clock × DuFrame}

/-- The check of a frame with both numbers shifted. -/
theorem pairCheck_shift :
    pairCheck cadenceMs (x.1, x.2.shift c) (y.1, y.2.shift c) =
      if y.2.seq = x.2.seq + 1 ∨ y.2.seq = x.2.seq then pairCheck cadenceMs x y
      else if x.2.seq + 1 + c < y.2.seq + c then some .gap else some .replay := by
  have hnext : x.2.seq + c + 1 = x.2.seq + 1 + c := by
    rw [UInt16.add_assoc, UInt16.add_comm c, UInt16.add_assoc]
  simp only [pairCheck, seq_shift, hnext, UInt16.add_left_inj]
  by_cases hseq : y.2.seq = x.2.seq + 1
  · simp [hseq]
  · by_cases hsame : y.2.seq = x.2.seq
    · simp [hsame]
    · simp [hseq, hsame]

/-- **One check survives the shift** iff the numbers it compares wrap together. -/
theorem pairCheck_shift_iff :
    pairCheck cadenceMs (x.1, x.2.shift c) (y.1, y.2.shift c) = pairCheck cadenceMs x y ↔
      WrapsAlike c x y := by
  rw [pairCheck_shift, WrapsAlike]
  by_cases hseq : y.2.seq = x.2.seq + 1
  · simp [hseq]
  · by_cases hsame : y.2.seq = x.2.seq
    · simp [hsame]
    · have horder := add_lt_add_iff c (Ne.symm hseq)
      simp only [pairCheck, hseq, hsame, or_self, if_false, ne_eq, not_false_eq_true,
        true_implies]
      rw [← horder]
      by_cases hlt : x.2.seq + 1 < y.2.seq <;>
        by_cases hshift : x.2.seq + 1 + c < y.2.seq + c <;> simp [hlt, hshift]

/-! ### Whole streams -/

/-- A recorded anomaly with the constant added to its number. -/
def shiftNote (c : UInt16) (n : DetKind × UInt16) : DetKind × UInt16 :=
  (n.1, n.2 + c)

/-- **The sequence check is wrap-aware** for a stream and a constant: with the constant added
to every number, a new device under test records the same kinds, at the shifted numbers. -/
def ShiftInvariant (cadenceMs c : UInt16) (arrivals : List (Clock × DuFrame)) : Prop :=
  ((Dut.new cadenceMs).feed (shift c arrivals)).detections.map Detection.note =
    (((Dut.new cadenceMs).feed arrivals).detections.map Detection.note).map (shiftNote c)

/-- A shifted frame is an anomaly iff the frame itself is one, of whatever kind. -/
theorem pairCheck_shift_isSome :
    (pairCheck cadenceMs (x.1, x.2.shift c) (y.1, y.2.shift c)).isSome =
      (pairCheck cadenceMs x y).isSome := by
  rw [pairCheck_shift]
  split
  · rfl
  · next hother =>
    obtain ⟨hseq, hsame⟩ := not_or.mp hother
    simp only [pairCheck, hseq, hsame, if_false]
    split <;> split <;> rfl

/-- Two lists that start with an anomaly each, or with none, agree iff both parts do. -/
theorem toList_append_inj {o o' : Option DetKind} {l l' : List (DetKind × UInt16)} (s : UInt16)
    (h : o'.isSome = o.isSome) :
    (o'.map fun k => (k, s)).toList ++ l' = (o.map fun k => (k, s)).toList ++ l ↔
      o' = o ∧ l' = l := by
  cases o <;> cases o' <;> simp_all

/-- The anomalies behind a frame shift along iff the numbers of every comparison wrap
together. -/
theorem anomalies_shift_iff (ys : List (Clock × DuFrame)) :
    anomalies cadenceMs (some (x.1, x.2.shift c)) (shift c ys) =
        (anomalies cadenceMs (some x) ys).map (shiftNote c) ↔
      (x :: ys).IsChain (WrapsAlike c) := by
  induction ys generalizing x with
  | nil => simp [shift, anomalies]
  | cons y ys ih =>
      have hnote : ((pairCheck cadenceMs x y).map fun k => (k, y.2.seq)).toList.map (shiftNote c) =
          ((pairCheck cadenceMs x y).map fun k => (k, y.2.seq + c)).toList := by
        cases pairCheck cadenceMs x y <;> rfl
      have hcons : shift c (y :: ys) = (y.1, y.2.shift c) :: shift c ys := rfl
      rw [hcons, anomalies, anomalies, List.map_append, Option.bind_some, Option.bind_some, hnote,
        seq_shift, toList_append_inj _ pairCheck_shift_isSome, pairCheck_shift_iff, ih,
        List.isChain_cons_cons]

/-- **When the sequence check is wrap-aware**: iff, wherever a frame has neither the number of
the frame before it nor the next one, the expected number and the one that comes wrap
together. -/
theorem shiftInvariant_iff (cadenceMs c : UInt16) (arrivals : List (Clock × DuFrame))
    (hheard : ∀ x ∈ arrivals, Dut.heard x.2 = true) :
    ShiftInvariant cadenceMs c arrivals ↔ arrivals.IsChain (WrapsAlike c) := by
  have hshift : ∀ x ∈ shift c arrivals, Dut.heard x.2 = true := by
    intro x hx
    obtain ⟨y, hy, rfl⟩ := List.mem_map.mp hx
    exact hheard y hy
  rw [ShiftInvariant, note_feed_heard cadenceMs hshift, note_feed_heard cadenceMs hheard]
  cases arrivals with
  | nil => simp [shift, anomalies]
  | cons x xs => exact anomalies_shift_iff xs

/-- A stream in the middle of the circle, with a gap and a stale frame in it, shifted by less
than the rest of the circle. -/
theorem shiftInvariant_of_middle :
    ShiftInvariant 5 1000 [sensorAt 0 10, sensorAt 5 12, sensorAt 10 11] ↔
      [sensorAt 0 10, sensorAt 5 12, sensorAt 10 11].IsChain (WrapsAlike 1000) :=
  shiftInvariant_iff 5 1000 _ (by decide +kernel)

/-- At the wrap the check takes a gap for a replay, and a replay for a gap: frame 0 after
65534, where 12 after 10 is a gap, and frame 65535 after 1, where 9 after 11 is a replay. -/
theorem gap_at_wrap_not_shiftInvariant :
    ¬ (∀ (cadenceMs c : UInt16) (arrivals : List (Clock × DuFrame)),
        (∀ x ∈ arrivals, Dut.heard x.2 = true) → ShiftInvariant cadenceMs c arrivals) ∧
    ¬ ShiftInvariant 5 65524 [sensorAt 0 10, sensorAt 5 12] ∧
    ¬ ShiftInvariant 5 65526 [sensorAt 0 11, sensorAt 5 9] := by
  have hgap : ¬ ShiftInvariant 5 65524 [sensorAt 0 10, sensorAt 5 12] := by
    unfold ShiftInvariant
    decide +kernel
  refine ⟨fun h => hgap (h 5 65524 _ (by decide +kernel)), hgap, ?_⟩
  unfold ShiftInvariant
  decide +kernel

end FaultForge
