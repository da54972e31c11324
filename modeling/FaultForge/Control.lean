import FaultForge.Campaign

/-!
# Control Decisions on a Faulted Link

Three consumers look at the kind byte of a frame: the handshake, the loop of a campaign,
and the device under test. Of these only the device under test asks first whether the
frame passed its CRC. The other two act on the kind byte of a corrupted frame: a corrupted
PONG confirms the link, a corrupted END ends the campaign, and a corrupted FAULT is taken
out of the stream before the device under test sees it.

`VerifiedControl` says that none of this happens. It holds exactly when the frames that
are looked at hold no corrupted frame with one of the three kinds
(`verifiedControl_iff`); a corrupted frame of any other kind, and every garbage marker,
does no harm.

## Main results

* `parseStream_delivers`: what the host is given are the images of parser outcomes.
* `countKind_crc_receive`: the CRC failures of a campaign.
* `verifiedControl_iff`: when only verified frames drive the control decisions.
-/

namespace FaultForge

/-! ### From bytes to frames -/

/-- The parser task: push every byte of every chunk, and pass on every outcome. -/
def parseStream : FrameParser → List (List UInt8) → Option (FrameParser × List DuFrame)
  | p, [] => some (p, [])
  | p, chunk :: chunks =>
      (p.run chunk).bind fun r =>
      (parseStream r.1 chunks).map fun s =>
      (s.1, r.2.reduceOption.map DuFrame.ofDecoded ++ s.2)

/-- What is passed on are images of parser outcomes. -/
theorem parseStream_delivers {p p' : FrameParser} {chunks : List (List UInt8)}
    {frames : List DuFrame} (h : parseStream p chunks = some (p', frames)) :
    ∃ outs : List Decoded, frames = outs.map DuFrame.ofDecoded := by
  induction chunks generalizing p frames with
  | nil =>
      obtain ⟨rfl, rfl⟩ := Prod.mk.inj (Option.some.inj h)
      exact ⟨[], rfl⟩
  | cons chunk chunks ih =>
      obtain ⟨r, -, h⟩ := Option.bind_eq_some_iff.mp h
      obtain ⟨s, hs, h⟩ := Option.map_eq_some_iff.mp h
      obtain ⟨rfl, rfl⟩ := Prod.mk.inj h
      obtain ⟨outs, houts⟩ := ih hs
      exact ⟨r.2.reduceOption ++ outs, by rw [houts, List.map_append]⟩

/-- Outcomes of the parser as the host receives them, with the clock at each call. -/
def delivered (outs : List (Clock × Decoded)) : List (Clock × DuFrame) :=
  outs.map fun x => (x.1, DuFrame.ofDecoded x.2)

/-- Wait for the PONG that answers the PING: the frame that is taken for it, and the
frames left in the channel. The list holds what arrives before the timeout. -/
def handshake : List (Clock × DuFrame) → Option (DuFrame × List (Clock × DuFrame))
  | [] => none
  | (_, f) :: fs => if f.kind = kPong then some (f, fs) else handshake fs

/-! ### Verified control -/

/-- A frame whose CRC was verified. -/
def DuFrame.Verified (f : DuFrame) : Prop :=
  f.badCrc = false ∧ f.garbage = false

instance (f : DuFrame) : Decidable f.Verified :=
  inferInstanceAs (Decidable (_ ∧ _))

/-- The campaign hands every unverified frame it receives to the device under test. -/
def UnverifiedProcessed (frames : List (Clock × DuFrame)) : Prop :=
  ∀ x ∈ received frames, ¬ x.2.Verified → dispatch x.2.kind = .process

/-- Only verified frames drive the control decisions of the host: the handshake succeeds
on a verified frame, the campaign after it hands every unverified frame to the device
under test and ends on none, and every corrupted frame that it receives gives exactly one
CRC failure. -/
structure VerifiedControl (cadenceMs : UInt16) (frames : List (Clock × DuFrame)) : Prop where
  handshake : ∀ f rest, handshake frames = some (f, rest) → f.Verified
  processed : ∀ f rest, FaultForge.handshake frames = some (f, rest) → UnverifiedProcessed rest
  crc : ∀ f rest, FaultForge.handshake frames = some (f, rest) →
    countKind .crc (receive (Dut.new cadenceMs) [] rest).1.detections =
      (received rest).countP fun x => x.2.badCrc

/-- A verified frame of a kind. -/
def Decoded.isFrame (k : UInt8) : Decoded → Bool
  | .frame kind _ _ _ => kind == k
  | _ => false

/-- The outcomes from the verified PONG on. -/
def fromPong (outs : List (Clock × Decoded)) : List (Clock × Decoded) :=
  outs.dropWhile fun x => !x.2.isFrame kPong

/-- No corrupted frame is mistaken: none has the kind of a PONG before the verified PONG,
and between it and the verified END none has the kind of a FAULT or of an END. -/
def NoneMistaken (outs : List (Clock × Decoded)) : Prop :=
  (∀ x ∈ outs.takeWhile fun x => !x.2.isFrame kPong, x.2 ≠ .badCrc kPong) ∧
  ∀ x ∈ (fromPong outs).tail.takeWhile fun x => !x.2.isFrame kEnd,
    x.2 ≠ .badCrc kFault ∧ x.2 ≠ .badCrc kEnd

/-! ### One outcome -/

section Outcome

variable (kind : UInt8) (payload : Bytes maxPayload) (len : ℕ) (fits : len ≤ maxPayload)

/-- The kind of a frame is the byte on the wire. -/
@[simp] theorem kind_frame : (DuFrame.ofDecoded (.frame kind payload len fits)).kind = kind := rfl

/-- So is that of a frame with a bad checksum. -/
@[simp] theorem kind_badCrc : (DuFrame.ofDecoded (.badCrc kind)).kind = kind := rfl

/-- Garbage has a kind of its own, which no message has. -/
@[simp] theorem kind_garbage : (DuFrame.ofDecoded .garbage).kind = 0xFF := rfl

/-- A frame is one of a kind iff it says so. -/
@[simp] theorem isFrame_frame (k : UInt8) :
    Decoded.isFrame k (.frame kind payload len fits) = (kind == k) := rfl

/-- A frame with a bad checksum is no frame of any kind. -/
@[simp] theorem isFrame_badCrc (k : UInt8) : Decoded.isFrame k (.badCrc kind) = false := rfl

/-- Neither is garbage. -/
@[simp] theorem isFrame_garbage (k : UInt8) : Decoded.isFrame k .garbage = false := rfl

/-- Frames are verified. -/
@[simp] theorem verified_frame : (DuFrame.ofDecoded (.frame kind payload len fits)).Verified :=
  ⟨rfl, rfl⟩

/-- Frames with a bad checksum are not. -/
@[simp] theorem not_verified_badCrc : ¬ (DuFrame.ofDecoded (.badCrc kind)).Verified :=
  fun h => Bool.noConfusion h.1

end Outcome

/-- Nothing is delivered for nothing. -/
@[simp] theorem delivered_nil : delivered [] = [] := rfl

/-- Each outcome of the parser is delivered, good or bad. -/
@[simp] theorem delivered_cons (clock : Clock) (o : Decoded) (outs : List (Clock × Decoded)) :
    delivered ((clock, o) :: outs) = (clock, DuFrame.ofDecoded o) :: delivered outs := rfl

/-- A corrupted frame is never a garbage marker. -/
theorem badCrc_and_not_garbage (o : Decoded) :
    ((DuFrame.ofDecoded o).badCrc && !(DuFrame.ofDecoded o).garbage) =
      (DuFrame.ofDecoded o).badCrc := by
  cases o <;> rfl

/-! ### The handshake -/

/-- The handshake succeeds on a verified frame iff no corrupted PONG comes first. -/
theorem handshake_verified_iff (outs : List (Clock × Decoded)) :
    (∀ f rest, handshake (delivered outs) = some (f, rest) → f.Verified) ↔
      ∀ x ∈ outs.takeWhile fun x => !x.2.isFrame kPong, x.2 ≠ .badCrc kPong := by
  induction outs with
  | nil => simp [handshake]
  | cons x outs ih =>
      obtain ⟨clock, o⟩ := x
      rw [delivered_cons, handshake, List.takeWhile_cons]
      cases o with
      | frame kind payload len fits =>
          by_cases hk : kind = kPong
          · simp [hk]
          · simpa [hk] using ih
      | badCrc kind =>
          by_cases hk : kind = kPong
          · simp [hk]
          · simpa [hk] using ih
      | garbage =>
          have hk : (0xFF : UInt8) ≠ kPong := by decide
          simpa [hk] using ih

/-- Without a corrupted PONG the handshake takes the verified one, if there is one. -/
theorem handshake_delivered {outs : List (Clock × Decoded)}
    (h : ∀ x ∈ outs.takeWhile fun x => !x.2.isFrame kPong, x.2 ≠ .badCrc kPong) :
    handshake (delivered outs) =
      (fromPong outs).head?.map fun x =>
        (DuFrame.ofDecoded x.2, delivered (fromPong outs).tail) := by
  induction outs with
  | nil => rfl
  | cons x outs ih =>
      obtain ⟨clock, o⟩ := x
      rw [List.takeWhile_cons] at h
      rw [delivered_cons, handshake, fromPong, List.dropWhile_cons]
      -- an outcome that is not the verified PONG is passed over on both sides
      have hskip : o.isFrame kPong = false → (DuFrame.ofDecoded o).kind ≠ kPong →
          (if (DuFrame.ofDecoded o).kind = kPong then
            some (DuFrame.ofDecoded o, delivered outs) else handshake (delivered outs)) =
          (if (!o.isFrame kPong) = true then fromPong outs else (clock, o) :: outs).head?.map
            fun x => (DuFrame.ofDecoded x.2, delivered
              (if (!o.isFrame kPong) = true then fromPong outs else (clock, o) :: outs).tail) := by
        intro ho hk
        simp only [ho, Bool.not_false, if_true] at h ⊢
        rw [if_neg hk]
        exact ih fun x hx => h x (List.mem_cons_of_mem _ hx)
      cases o with
      | frame kind payload len fits =>
          by_cases hk : kind = kPong
          · simp [hk]
          · exact hskip (by simp [hk]) (by simpa using hk)
      | badCrc kind =>
          have hk : kind ≠ kPong := fun hk => h (clock, .badCrc kind) (by simp) (by rw [hk])
          exact hskip rfl (by simpa using hk)
      | garbage => exact hskip rfl (by decide)

/-! ### The campaign -/

/-- Every unverified frame reaches the device under test iff no corrupted FAULT or END
comes before the verified END. -/
theorem unverifiedProcessed_iff (outs : List (Clock × Decoded)) :
    UnverifiedProcessed (delivered outs) ↔
      ∀ x ∈ outs.takeWhile fun x => !x.2.isFrame kEnd,
        x.2 ≠ .badCrc kFault ∧ x.2 ≠ .badCrc kEnd := by
  induction outs with
  | nil => simp [UnverifiedProcessed, received]
  | cons x outs ih =>
      obtain ⟨clock, o⟩ := x
      rw [UnverifiedProcessed] at ih ⊢
      simp only [delivered_cons, received, List.takeWhile_cons, dispatch_eq_stop]
      cases o with
      | frame kind payload len fits =>
          by_cases hk : kind = kEnd
          · simp [hk]
          · simpa [hk] using ih
      | badCrc kind =>
          by_cases hk : kind = kEnd
          · simp [hk, dispatch_eq_process]
          · rw [if_neg (by simpa using hk), if_pos (by simp), List.forall_mem_cons, ih,
              List.forall_mem_cons]
            simp [dispatch_eq_process, hk]
      | garbage =>
          have hk : (0xFF : UInt8) ≠ kFault ∧ (0xFF : UInt8) ≠ kEnd := by decide
          rw [if_neg (by simpa using hk.2), if_pos (by simp), List.forall_mem_cons, ih,
            List.forall_mem_cons]
          simp [dispatch_eq_process, hk]

/-- **The CRC failures of a campaign**: when every unverified frame is handed to the device
under test, it records one for each corrupted frame received. -/
theorem countKind_crc_receive {outs : List (Clock × Decoded)} {dut : Dut}
    {truths : List GroundTruth} (h : UnverifiedProcessed (delivered outs)) :
    countKind .crc (receive dut truths (delivered outs)).1.detections =
      countKind .crc dut.detections +
        (received (delivered outs)).countP fun x => x.2.badCrc := by
  induction outs generalizing dut truths with
  | nil => rfl
  | cons x outs ih =>
      obtain ⟨clock, o⟩ := x
      rw [UnverifiedProcessed, delivered_cons, received] at h
      rw [delivered_cons, receive, received]
      -- a frame that is not processed is verified, so it is no corrupted one
      have hgood : dispatch (DuFrame.ofDecoded o).kind ≠ .process →
          (DuFrame.ofDecoded o).badCrc = false := by
        intro hd
        by_contra hc
        refine hd (h (clock, DuFrame.ofDecoded o) (by split <;> simp) fun hv => hc hv.1)
      cases hd : dispatch (DuFrame.ofDecoded o).kind with
      | process =>
          simp only [hd, reduceCtorEq, if_false] at h ⊢
          rw [ih (List.forall_mem_of_forall_mem_cons h), Dut.countKind_crc_process,
            List.countP_cons, badCrc_and_not_garbage, Nat.add_assoc, Nat.add_comm (ite _ _ _)]
      | truth =>
          simp only [hd, reduceCtorEq, if_false] at h ⊢
          have hrest := List.forall_mem_of_forall_mem_cons h
          rw [List.countP_cons, hgood (by simp [hd])]
          split <;> rw [ih hrest] <;> rfl
      | stop =>
          simp [hgood (by simp [hd])]

/-- **When only verified frames drive the control decisions**: exactly when no corrupted
frame is mistaken for a PONG, a FAULT or an END. -/
theorem verifiedControl_iff (cadenceMs : UInt16) (outs : List (Clock × Decoded)) :
    VerifiedControl cadenceMs (delivered outs) ↔ NoneMistaken outs := by
  constructor
  · intro h
    have hpong := (handshake_verified_iff outs).mp h.handshake
    refine ⟨hpong, ?_⟩
    have hshake := handshake_delivered hpong
    cases hfrom : fromPong outs with
    | nil => simp
    | cons x rest =>
        rw [hfrom] at hshake
        exact (unverifiedProcessed_iff rest).mp (h.processed _ _ hshake)
  · rintro ⟨hpong, hrest⟩
    have hshake := handshake_delivered hpong
    have hprocessed : ∀ f rest, handshake (delivered outs) = some (f, rest) →
        rest = delivered (fromPong outs).tail := by
      intro f rest h
      rw [hshake] at h
      obtain ⟨x, -, hx⟩ := Option.map_eq_some_iff.mp h
      exact (Prod.mk.inj hx).2.symm
    have hunverified := (unverifiedProcessed_iff _).mpr hrest
    refine ⟨(handshake_verified_iff outs).mpr hpong, fun f rest h => ?_, fun f rest h => ?_⟩
    · rw [hprocessed f rest h]
      exact hunverified
    · rw [hprocessed f rest h, countKind_crc_receive hunverified]
      simp [Dut.new, countKind]

/-- The first three bytes of the injector's PONG are delivered as a corrupted PONG, on
which the handshake succeeds. -/
theorem corrupted_pong_not_verifiedControl :
    ∃ p frames, parseStream .new [[0x7E, 0x00, 0x83]] = some (p, frames) ∧
      ¬ VerifiedControl 5 (frames.map fun f => (fun _ => ⟨0⟩, f)) := by
  refine ⟨⟨⟨[0x7E, 0x00, 0x83] ++ List.replicate 17 0, rfl⟩, 0⟩,
    [DuFrame.ofDecoded (.badCrc kPong)], by decide +kernel, fun h => ?_⟩
  exact not_verified_badCrc kPong (h.handshake _ [] rfl)

end FaultForge
