import FaultForge.Sequence

/-!
# Replayed Frames

A stream of sensor frames with consecutive numbers into which copies of frames already
delivered are inserted (`ReplayedStream`). The device under test should record one replay
for every copy and nothing else (`OnePerCopy`).

The check compares a frame with the one heard before it, be that a copy or not. So a copy of
an older frame moves the baseline back, and what comes next is measured against the wrong
frame: the next frame in order shows a gap although nothing is missing, and another copy may
show nothing at all. `onePerCopy_iff` says for which streams this does not happen.

## Main results

* `pairCheck_fresh`, `pairCheck_copy_iff`: the check of a frame in order and of a copy.
* `onePerCopy_iff`: when a stream records exactly one replay for each copy.
-/

namespace FaultForge

/-! ### Streams with copies -/

/-- A delivered sensor frame: one in order, or a copy of one delivered before. -/
inductive Delivery where
  | fresh (x : Clock × DuFrame)
  | copy (x : Clock × DuFrame)

/-- The frame as it arrives. -/
def Delivery.arrival : Delivery → Clock × DuFrame
  | fresh x => x
  | copy x => x

/-- Deliveries behind the frames that were sent in order so far: each is the frame with the
next number, without a wrap, or a copy of a frame that was sent. -/
inductive Inserted : List DuFrame → List Delivery → Prop
  | nil {sent : List DuFrame} : Inserted sent []
  | fresh {sent : List DuFrame} {clock : Clock} {f : DuFrame} {ds : List Delivery} :
      Dut.heard f = true → (∀ last ∈ sent.getLast?, f.seq.toNat = last.seq.toNat + 1) →
      Inserted (sent ++ [f]) ds → Inserted sent (.fresh (clock, f) :: ds)
  | copy {sent : List DuFrame} {clock : Clock} {f : DuFrame} {ds : List Delivery} :
      f ∈ sent → Inserted sent ds → Inserted sent (.copy (clock, f) :: ds)

/-- **A stream with replays**: frames with consecutive numbers, and copies of frames already
delivered at arbitrary points, all of them on time. -/
structure ReplayedStream (cadenceMs : UInt16) where
  deliveries : List Delivery
  inserted : Inserted [] deliveries
  onTime : (deliveries.map Delivery.arrival).IsChain (OnTime cadenceMs)

/-- One replay for each copy, in order. -/
def copies (ds : List Delivery) : List (DetKind × UInt16) :=
  ds.filterMap fun
    | .fresh _ => none
    | .copy x => some (.replay, x.2.seq)

/-- No copies, no replays. -/
@[simp] theorem copies_nil : copies [] = [] := rfl

/-- A first delivery is no replay. -/
@[simp] theorem copies_fresh (x : Clock × DuFrame) (ds : List Delivery) :
    copies (.fresh x :: ds) = copies ds := rfl

/-- A further one is, under its own number. -/
@[simp] theorem copies_copy (x : Clock × DuFrame) (ds : List Delivery) :
    copies (.copy x :: ds) = (.replay, x.2.seq) :: copies ds := rfl

/-- The device under test records exactly one replay for each copy, in order. -/
def OnePerCopy {cadenceMs : UInt16} (s : ReplayedStream cadenceMs) : Prop :=
  ((Dut.new cadenceMs).feed (s.deliveries.map Delivery.arrival)).detections.map Detection.note =
    copies s.deliveries

/-- No stale copy comes in between: a frame in order comes right behind the frame before it
in order, or a copy of that one. A copy comes right behind a frame with the same number, or
with a higher one other than the last. -/
def InStep (x : Delivery) : Delivery → Prop
  | .fresh y => y.2.seq = x.arrival.2.seq + 1
  | .copy y => y.2.seq = x.arrival.2.seq ∨
      y.2.seq < x.arrival.2.seq ∧ x.arrival.2.seq ≠ 65535

instance (x : Delivery) : (y : Delivery) → Decidable (InStep x y)
  | .fresh _ => inferInstanceAs (Decidable (_ = _))
  | .copy _ => inferInstanceAs (Decidable (_ ∨ _))

/-! ### One check -/

variable {cadenceMs : UInt16} {x y : Clock × DuFrame}

/-- **A frame in order** passes the check if it has the next number, and is otherwise taken
for a gap. -/
theorem pairCheck_fresh (hlt : x.2.seq.toNat < y.2.seq.toNat) (htime : OnTime cadenceMs x y) :
    pairCheck cadenceMs x y = if y.2.seq = x.2.seq + 1 then none else some .gap := by
  split
  · next hseq => exact pairCheck_eq_none hseq htime
  · next hseq =>
    have hy := y.2.seq.toNat_lt
    have hsame : y.2.seq ≠ x.2.seq := fun h => by rw [h] at hlt; omega
    have hgap : x.2.seq + 1 < y.2.seq := by
      have hne := mt UInt16.toNat_inj.mp hseq
      rw [UInt16.lt_iff_toNat_lt]
      rw [UInt16.toNat_add] at hne ⊢
      have hone : (1 : UInt16).toNat = 1 := rfl
      omega
    simp [pairCheck, hseq, hsame, hgap]

/-- **A copy** is recorded as a replay iff it is in step with the frame before it. -/
theorem pairCheck_copy_iff (cadenceMs : UInt16) (x y : Clock × DuFrame) :
    pairCheck cadenceMs x y = some .replay ↔
      y.2.seq = x.2.seq ∨ y.2.seq < x.2.seq ∧ x.2.seq ≠ 65535 := by
  have hx := x.2.seq.toNat_lt
  have hy := y.2.seq.toNat_lt
  have hone : (1 : UInt16).toNat = 1 := rfl
  have hlast : (65535 : UInt16).toNat = 65535 := rfl
  simp only [pairCheck, ← UInt16.toNat_inj, UInt16.lt_iff_toNat_lt, UInt16.toNat_add, ne_eq]
  split
  · split <;> simp <;> omega
  · split
    · simp; omega
    · split <;> simp <;> omega

/-! ### Whole streams -/

/-- The frame heard last is among those sent in order, none of which has a higher number
than the last one. -/
structure Sent (sent : List DuFrame) (x : Clock × DuFrame) : Prop where
  mem : x.2 ∈ sent
  le : ∀ f ∈ sent, ∀ last ∈ sent.getLast?, f.seq.toNat ≤ last.seq.toNat

variable {sent : List DuFrame} {ds : List Delivery}

/-- The next frame in order has a higher number than any frame heard. -/
theorem Sent.lt (h : Sent sent x)
    (hnext : ∀ last ∈ sent.getLast?, y.2.seq.toNat = last.seq.toNat + 1) :
    x.2.seq.toNat < y.2.seq.toNat := by
  obtain ⟨last, hlast⟩ : ∃ last, sent.getLast? = some last :=
    ⟨_, List.getLast?_eq_some_getLast (List.ne_nil_of_mem h.mem)⟩
  have hle := h.le _ h.mem last hlast
  have hsucc := hnext last hlast
  omega

/-- A frame with a larger number than all before it is the last one sent. -/
theorem Sent.fresh (h : ∀ f ∈ sent, f.seq.toNat < y.2.seq.toNat) : Sent (sent ++ [y.2]) y := by
  refine ⟨by simp, fun f hf last hlast => ?_⟩
  simp only [List.getLast?_append, List.getLast?_singleton, Option.some_or, Option.mem_some_iff]
    at hlast
  subst hlast
  rcases List.mem_append.mp hf with hf | hf
  · exact (h f hf).le
  · exact (congrArg (fun g : DuFrame => g.seq.toNat) (List.mem_singleton.mp hf)).le

/-- The frames behind the next one in order. -/
theorem Sent.next (h : Sent sent x)
    (hnext : ∀ last ∈ sent.getLast?, y.2.seq.toNat = last.seq.toNat + 1) :
    Sent (sent ++ [y.2]) y :=
  .fresh fun f hf => Sent.lt (x := (x.1, f)) ⟨hf, h.le⟩ hnext

/-- A frame that has been sent may come again. -/
theorem Sent.copy (h : Sent sent x) (hmem : y.2 ∈ sent) : Sent sent y :=
  ⟨hmem, h.le⟩

/-- The copies account for replays only. -/
theorem kind_of_mem_copies (ds : List Delivery) {n : DetKind × UInt16} (h : n ∈ copies ds) :
    n.1 = .replay := by
  obtain ⟨d, -, hd⟩ := List.mem_filterMap.mp h
  cases d with
  | fresh x => simp at hd
  | copy x => exact (congrArg Prod.fst (Option.some.inj hd)).symm

/-- There are at most as many replays recorded as there are copies. -/
theorem countP_replay_le (hins : Inserted sent ds) (hsent : Sent sent x)
    (htime : (x :: ds.map Delivery.arrival).IsChain (OnTime cadenceMs)) :
    (anomalies cadenceMs (some x) (ds.map Delivery.arrival)).countP (·.1 = .replay) ≤
      (copies ds).length := by
  induction hins generalizing x with
  | nil => exact le_rfl
  | @fresh sent clock f ds _ hnext _ ih =>
      obtain ⟨hstep, hrest⟩ := List.isChain_cons_cons.mp htime
      have htail := ih (x := (clock, f)) (hsent.next (y := (clock, f)) hnext) hrest
      have hcheck := pairCheck_fresh (y := (clock, f)) (hsent.lt (y := (clock, f)) hnext) hstep
      rw [List.map_cons, anomalies, Option.bind_some, Delivery.arrival, hcheck,
        List.countP_append]
      split
      · simpa using htail
      · simpa using htail
  | @copy sent clock f ds hmem _ ih =>
      obtain ⟨-, hrest⟩ := List.isChain_cons_cons.mp htime
      have htail := ih (x := (clock, f)) (hsent.copy (y := (clock, f)) hmem) hrest
      have hone : ((pairCheck cadenceMs x (clock, f)).map fun k => (k, f.seq)).toList.countP
          (·.1 = .replay) ≤ 1 := by
        refine List.countP_le_length.trans ?_
        cases pairCheck cadenceMs x (clock, f) <;> simp
      rw [List.map_cons, anomalies, Option.bind_some, Delivery.arrival, List.countP_append]
      exact (Nat.add_le_add hone htail).trans (Nat.add_comm 1 _).le

/-- Behind a frame heard, exactly one replay for each copy is recorded iff no stale copy
comes in between. -/
theorem anomalies_eq_copies_iff (hins : Inserted sent ds) {z : Delivery}
    (hsent : Sent sent z.arrival)
    (htime : (z.arrival :: ds.map Delivery.arrival).IsChain (OnTime cadenceMs)) :
    anomalies cadenceMs (some z.arrival) (ds.map Delivery.arrival) = copies ds ↔
      (z :: ds).IsChain InStep := by
  induction hins generalizing z with
  | nil => simp [anomalies]
  | @fresh sent clock f ds _ hnext _ ih =>
      obtain ⟨hstep, hrest⟩ := List.isChain_cons_cons.mp htime
      have htail := ih (z := .fresh (clock, f)) (hsent.next (y := (clock, f)) hnext) hrest
      have hcheck := pairCheck_fresh (y := (clock, f)) (hsent.lt (y := (clock, f)) hnext) hstep
      rw [List.map_cons, anomalies, Option.bind_some, Delivery.arrival, hcheck,
        List.isChain_cons_cons, ← htail]
      by_cases hseq : f.seq = z.arrival.2.seq + 1
      · simp [InStep, hseq, Delivery.arrival]
      · have hno : (DetKind.gap, f.seq) ∉ copies (.fresh (clock, f) :: ds) :=
          fun h => DetKind.noConfusion (kind_of_mem_copies _ h)
        simp only [InStep, hseq, if_false, false_and, iff_false]
        exact fun h => hno (h ▸ by simp)
  | @copy sent clock f ds hmem hins ih =>
      obtain ⟨-, hrest⟩ := List.isChain_cons_cons.mp htime
      have htail := ih (z := .copy (clock, f)) (hsent.copy (y := (clock, f)) hmem) hrest
      have hcount := countP_replay_le hins (hsent.copy (y := (clock, f)) hmem) hrest
      have hcheck := pairCheck_copy_iff cadenceMs z.arrival (clock, f)
      rw [List.map_cons, anomalies, Option.bind_some, Delivery.arrival, copies_copy,
        List.isChain_cons_cons, InStep, ← hcheck, ← htail]
      cases hkind : pairCheck cadenceMs z.arrival (clock, f) with
      | none =>
          -- what the copy does not show would have to be shown behind it
          simp only [Option.map_none, Option.toList_none, List.nil_append, reduceCtorEq,
            false_and, iff_false]
          intro h
          have hall : ((DetKind.replay, f.seq) :: copies ds).countP (·.1 = .replay) =
              (copies ds).length + 1 :=
            List.countP_eq_length.mpr fun n hn =>
              decide_eq_true (kind_of_mem_copies (.copy (clock, f) :: ds) hn)
          rw [h, hall] at hcount
          exact absurd hcount (Nat.not_succ_le_self _)
      | some k => simp [Delivery.arrival]

/-- Copies of sensor frames are sensor frames. -/
theorem Inserted.heard (hins : Inserted sent ds) (hsent : ∀ f ∈ sent, Dut.heard f = true) :
    ∀ x ∈ ds.map Delivery.arrival, Dut.heard x.2 = true := by
  induction hins with
  | nil => simp
  | fresh hf _ _ ih =>
      refine List.forall_mem_cons.mpr ⟨hf, ih fun g hg => ?_⟩
      rcases List.mem_append.mp hg with hg | hg
      · exact hsent g hg
      · exact List.mem_singleton.mp hg ▸ hf
  | copy hmem _ ih => exact List.forall_mem_cons.mpr ⟨hsent _ hmem, ih hsent⟩

/-- **A replay costs exactly one detection** iff no stale copy comes in between: every frame
in order comes right behind the one before it in order or a copy of that one, and every copy
right behind a frame with the same number, or with a higher one other than 65535. -/
theorem onePerCopy_iff {cadenceMs : UInt16} (s : ReplayedStream cadenceMs) :
    OnePerCopy s ↔ s.deliveries.IsChain InStep := by
  obtain ⟨ds, hins, htime⟩ := s
  rw [OnePerCopy, note_feed_heard cadenceMs (hins.heard (by simp))]
  cases hins with
  | nil => simp [anomalies]
  | @fresh _ clock f ds _ _ hins =>
      exact anomalies_eq_copies_iff (z := .fresh (clock, f)) hins
        (.fresh (y := (clock, f)) (by simp)) htime
  | copy hmem => simp at hmem

/-- Frames 7 and 8, a copy of frame 7, and frame 9. -/
def staleCopy : ReplayedStream 5 where
  deliveries := [.fresh (sensorAt 0 7), .fresh (sensorAt 5 8), .copy (sensorAt 10 7),
    .fresh (sensorAt 15 9)]
  inserted := .fresh rfl (by simp) <| .fresh rfl (by decide +kernel) <|
    .copy (List.mem_cons_self ..) <| .fresh rfl (by decide +kernel) .nil
  onTime := by decide +kernel

/-- The frame in order behind a stale copy is taken for a gap. -/
theorem staleCopy_not_onePerCopy : ¬ OnePerCopy staleCopy := by
  unfold OnePerCopy
  decide +kernel

end FaultForge
