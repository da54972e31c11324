import Mathlib.Data.Fintype.EquivFin
import FaultForge.Hearing

/-!
# Which Seeds Are Heard

Whether the injector hears a START depends on a checksum (`Audible`), and a checksum depends on
each byte of its message as a permutation: the shift of the register is invertible, so whatever
stands before and behind a byte, each value of the checksum comes from one value of the byte
(`existsUnique_crc8`). The lowest byte of the seed is such a byte. So with any configuration and
any three higher bytes of the seed, the injector hears one seed out of 256.

## Main results

* `existsUnique_crc8`: the checksum as a function of one byte.
* `one_seed_heard`: one seed in 256 is heard.
-/

namespace FaultForge

open Transducer

/-! ### One byte of a message -/

/-- The shift of the register, undone. -/
def crcUnshift (d : UInt8) : UInt8 :=
  if d &&& 1 ≠ 0 then ((d ^^^ 0x07) >>> 1) ||| 0x80 else d >>> 1

/-- A shift of the register loses nothing. -/
theorem crcShift_injective : Function.Injective crcShift := by
  refine Function.LeftInverse.injective (g := crcUnshift) fun c => ?_
  have hbyte : ∀ c : Fin 256, crcUnshift (crcShift (UInt8.ofNat c)) = UInt8.ofNat c := by
    decide +kernel
  simpa using hbyte ⟨c.toNat, c.toNat_lt⟩

/-- The register behind a message depends on the one before it as a permutation. -/
theorem foldl_crc_injective (data : List UInt8) :
    Function.Injective fun c => data.foldl (fun c b => crcShift^[8] (c ^^^ b)) c := by
  induction data with
  | nil => exact fun c c' h => h
  | cons b data ih =>
      intro c c' h
      exact (UInt8.xor_left_inj b).mp (crcShift_injective.iterate 8 (ih h))

/-- **The checksum as a function of one byte** takes each value once. -/
theorem existsUnique_crc8 (front back : List UInt8) (y : UInt8) :
    ∃! x, crc8 (front ++ x :: back) = y := by
  have hinj : Function.Injective fun x => crc8 (front ++ x :: back) := by
    intro x x' h
    simp only [crc8, List.foldl_append, List.foldl_cons] at h
    exact (UInt8.xor_right_inj _).mp
      (crcShift_injective.iterate 8 (foldl_crc_injective back h))
  -- as many bytes as checksums
  have hfin : Function.Injective fun x : Fin 256 =>
      (crc8 (front ++ UInt8.ofFin x :: back)).toFin := fun x x' h =>
    congrArg UInt8.toFin (hinj (UInt8.toFin_inj.mp h))
  obtain ⟨x, hx⟩ := Finite.injective_iff_surjective.mp hfin y.toFin
  exact ⟨UInt8.ofFin x, UInt8.toFin_inj.mp hx, fun x' hx' =>
    hinj (hx'.trans (UInt8.toFin_inj.mp hx).symm)⟩

/-! ### The seed -/

/-- The higher bytes of a seed, as a number of twenty-four bits. -/
def highBytes (u : ℕ) : List UInt8 :=
  [UInt8.ofNat u, UInt8.ofNat (u / 256), UInt8.ofNat (u / 65536)]

/-- The lowest byte of a seed, and the three higher ones. -/
theorem leBytes32_eq (seed : UInt32) :
    leBytes32 seed = UInt8.ofNat seed.toNat :: highBytes (seed.toNat / 256) := by
  simp only [leBytes32, highBytes, List.cons.injEq, and_true, ← UInt8.toNat_inj,
    UInt32.toNat_toUInt8, UInt32.toNat_shiftRight, UInt8.toNat_ofNat', UInt32.reduceToNat,
    Nat.reduceMod, Nat.shiftRight_eq_div_pow]
  exact ⟨trivial, trivial, by omega, by omega⟩

/-- Whether a START is audible, as a matter of the lowest byte of its seed. -/
theorem audible_seed_iff (cfg : CampaignConfig) (seed : UInt32) :
    Audible { cfg with seed } ↔
      some (crc8 ([UInt8.ofNat startPayloadLen, kStart] ++ UInt8.ofNat seed.toNat ::
        (highBytes (seed.toNat / 256) ++ leBytes16 cfg.packets ++ leBytes16 cfg.cadenceMs ++
          cfg.weights.toList))) = cfg.weights.toList.getLast? := by
  have hcovered : covered kStart (startPayload { cfg with seed }) =
      [UInt8.ofNat startPayloadLen, kStart] ++ UInt8.ofNat seed.toNat ::
        (highBytes (seed.toNat / 256) ++ leBytes16 cfg.packets ++ leBytes16 cfg.cadenceMs ++
          cfg.weights.toList) := by
    rw [covered, length_startPayload, startPayload_eq, leBytes32_eq]
    simp
  rw [Audible, hcovered, eq_comm]

/-- **A START by itself**: what the injector hears of its bytes. -/
theorem heard_alone (cfg : CampaignConfig) :
    ∃ p outs, FrameParser.new.run (encodeStart cfg).toVec = some (p, outs) ∧
      commands outs = if Audible cfg then [.start cfg] else [] := by
  have hbytes : (encodeStart cfg).toVec = (ControlMsg.start cfg).frame.bytes :=
    (ControlMsg.bytes_frame (.start cfg)).symm
  have hverdict := command_verdict (.start cfg)
  obtain ⟨p, last, hrun, hlast⟩ := (ControlMsg.start cfg).frame.run_alone
  rw [hbytes]
  refine ⟨p, _, hrun, ?_⟩
  have hnone : commands [last] = [] := by
    rcases hlast with rfl | rfl <;> rfl
  have hsplit : ∀ outs outs' : List (Option Decoded),
      commands (outs ++ outs') = commands outs ++ commands outs' := fun _ _ =>
    List.filterMap_append
  have hwaiting : ∀ n, commands (List.replicate n none) = [] := by simp [commands]
  have hmiddle : commands [some (ControlMsg.start cfg).frame.verdict] =
      (ControlMsg.start cfg).heard.toList := by
    rw [commands, List.filterMap_cons, List.filterMap_nil, Option.bind_some, hverdict]
    cases (ControlMsg.start cfg).heard <;> rfl
  rw [hsplit, hsplit, hwaiting, hmiddle, hnone, List.nil_append, List.append_nil, ControlMsg.heard]
  split <;> rfl

/-- **One seed in 256 is heard.** Whatever the packets, the cadence, the weights and the three
higher bytes of the seed are, there is exactly one lowest byte of the seed with which the injector
hears the START that the host sends. -/
theorem one_seed_heard (cfg : CampaignConfig) (u : Fin (2 ^ 24)) :
    ∃! seed : UInt32, seed.toNat / 256 = u ∧
      ∃ p outs, FrameParser.new.run (encodeStart { cfg with seed }).toVec = some (p, outs) ∧
        commands outs = [.start { cfg with seed }] := by
  have hheard : ∀ seed, (∃ p outs,
      FrameParser.new.run (encodeStart { cfg with seed }).toVec = some (p, outs) ∧
        commands outs = [.start { cfg with seed }]) ↔ Audible { cfg with seed } := by
    intro seed
    obtain ⟨p, outs, hrun, hcommands⟩ := heard_alone { cfg with seed }
    constructor
    · rintro ⟨p', outs', hrun', hcommands'⟩
      obtain ⟨rfl, rfl⟩ := Prod.mk.inj (Option.some.inj (hrun.symm.trans hrun'))
      by_contra hnot
      rw [hcommands, if_neg hnot] at hcommands'
      exact absurd hcommands' (by simp)
    · intro h
      exact ⟨p, outs, hrun, by rw [hcommands, if_pos h]⟩
  obtain ⟨y, hy⟩ : ∃ y, cfg.weights.toList.getLast? = some y := by
    have hne : cfg.weights.toList ≠ [] := by
      rw [← List.length_pos_iff, cfg.weights.toList_length]
      decide
    exact ⟨_, List.getLast?_eq_some_getLast hne⟩
  obtain ⟨x, hx, honly⟩ := existsUnique_crc8 [UInt8.ofNat startPayloadLen, kStart]
    (highBytes u ++ leBytes16 cfg.packets ++ leBytes16 cfg.cadenceMs ++ cfg.weights.toList) y
  have hu := u.isLt
  have hxlt := x.toNat_lt
  have hseed : (UInt32.ofNat (256 * u + x.toNat)).toNat = 256 * u + x.toNat :=
    UInt32.toNat_ofNat_of_lt' (by change _ < 2 ^ 32; omega)
  simp only [hheard, audible_seed_iff, hy, Option.some.injEq]
  refine ⟨UInt32.ofNat (256 * u + x.toNat), ⟨by rw [hseed]; omega, ?_⟩, ?_⟩
  · have hlow : UInt8.ofNat (256 * u + x.toNat) = x := by
      apply UInt8.toNat_inj.mp
      rw [UInt8.toNat_ofNat']
      omega
    rw [hseed, hlow, show (256 * (u : ℕ) + x.toNat) / 256 = u by omega]
    exact hx
  · rintro seed ⟨hhigh, hcrc⟩
    rw [hhigh] at hcrc
    have hbyte := congrArg UInt8.toNat (honly _ hcrc)
    rw [UInt8.toNat_ofNat'] at hbyte
    apply UInt32.toNat_inj.mp
    rw [hseed]
    omega

end FaultForge
