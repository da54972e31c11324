import Mathlib.Tactic.IntervalCases
import FaultForge.Codec
import FaultForge.Delays
import FaultForge.Flawless
import FaultForge.Generator
import FaultForge.Selection

/-!
# Where the Corruptions Hit

The generator is one modulo a power of two, and `below` takes its remainder: the low bits of the
states have a period of their own, a short one (`below_eq_iff`). A campaign that injects nothing
but BITFLIPs, or nothing but BYTEs, makes three draws in each slot, for the kind, for the value
and for the place of the corruption. Three is odd, so the places come in a fixed rotation, whatever
the seed is: sixteen slots in a row flip sixteen different bits, and four slots in a row hit four
different bytes.

## Main results

* `below_eq_iff`: when `below` draws the same below a power of two.
* `corruptions_rotate`: the rotation of the corruptions.
-/

namespace FaultForge

/-! ### Low bits -/

namespace Lcg

/-- **The low bits of two states** are the same iff the states are a multiple of their period
apart. -/
theorem state_modEq_iff (g : Lcg) {m : ℕ} (hm : m ≤ 32) (j k : ℕ) :
    (g.after j).state.toNat ≡ (g.after k).state.toNat [MOD 2 ^ m] ↔ j ≡ k [MOD 2 ^ m] := by
  wlog hle : j ≤ k generalizing j k
  · rw [Nat.ModEq.comm, this k j (Nat.le_of_not_le hle), Nat.ModEq.comm]
  obtain ⟨d, rfl⟩ := Nat.exists_eq_add_of_le hle
  have hdvd : (2 : ℤ) ^ m ∣ 2 ^ 32 := pow_dvd_pow 2 hm
  have hlow := ((g.after j).after_modEq d).of_dvd hdvd
  have hperiod := @Congruential.iterate_step_modEq_iff 1103515245 12345 m d (by decide) (by decide)
    (g.after j).state.toNat
  have hleft : (g.after j).state.toNat ≡ ((g.after j).after d).state.toNat [MOD 2 ^ m] ↔
      2 ^ m ∣ d := by
    rw [← hperiod, ← Int.natCast_modEq_iff]
    push_cast
    exact ⟨fun h => hlow.symm.trans h.symm, fun h => (hlow.trans h).symm⟩
  have hright : j ≡ j + d [MOD 2 ^ m] ↔ 2 ^ m ∣ d := by
    rw [Nat.modEq_iff_dvd' (Nat.le_add_right j d), Nat.add_sub_cancel_left]
  rw [after_add, hleft, hright]

/-- A draw of `below` is a remainder of the next state. -/
theorem below_of_pos (g : Lcg) {n : UInt32} (hn : n ≠ 0) :
    (g.below n).1.toNat = (g.after 1).state.toNat % n.toNat ∧ (g.below n).2 = g.after 1 := by
  rw [below, if_neg hn]
  exact ⟨UInt32.toNat_mod _ _, rfl⟩

/-- A draw of `below` is below. -/
theorem below_lt (g : Lcg) {n : UInt32} (hn : n ≠ 0) : (g.below n).1 < n := by
  rw [UInt32.lt_iff_toNat_lt, (g.below_of_pos hn).1]
  exact Nat.mod_lt _ (Nat.pos_of_ne_zero fun h => hn (UInt32.toNat_inj.mp h))

/-- **Draws below a power of two** have its period. -/
theorem below_eq_iff (g : Lcg) {m : ℕ} {n : UInt32} (hn : n.toNat = 2 ^ m) (j k : ℕ) :
    ((g.after j).below n).1 = ((g.after k).below n).1 ↔ j ≡ k [MOD 2 ^ m] := by
  have hm : m ≤ 32 := by
    by_contra hlt
    have hpow := Nat.pow_le_pow_right (Nat.two_pos) (Nat.le_of_not_le hlt)
    have hn32 := n.toNat_lt
    omega
  have hne : n ≠ 0 := by
    rintro rfl
    exact (Nat.two_pow_pos m).ne hn
  rw [← UInt32.toNat_inj, (below_of_pos _ hne).1, (below_of_pos _ hne).1, hn, ← after_add,
    ← after_add]
  exact (state_modEq_iff g hm (j + 1) (k + 1)).trans
    ⟨Nat.ModEq.add_right_cancel' 1, fun h => h.add_right 1⟩

end Lcg

/-! ### The corrupted value -/

/-- A byte in one of the four places of a double word. -/
def byteAt (k : ℕ) (x : UInt8) : UInt32 :=
  x.toUInt32 <<< UInt32.ofNat (8 * k)

/-- The bytes of such a double word: one in its place, and zeros. -/
theorem toUInt8_byteAt {k : ℕ} (hk : k < 4) (x : UInt8) :
    leBytes32 (byteAt k x) = (List.replicate 4 0).set k x := by
  have hx := x.toNat_lt
  have hat : (byteAt k x).toNat = x.toNat * 2 ^ (8 * k) := by
    rw [byteAt, UInt32.toNat_shiftLeft, UInt8.toNat_toUInt32,
      UInt32.toNat_ofNat_of_lt' (by omega : 8 * k < 2 ^ 32),
      Nat.mod_eq_of_lt (by omega : 8 * k < 32), shiftLeft_mod hx (by omega), Nat.shiftLeft_eq]
  interval_cases k <;>
    simp [leBytes32, ← UInt8.toNat_inj, hat, Nat.shiftRight_eq_div_pow] <;> omega

/-- The bytes of two double words are combined one by one. -/
theorem leBytes32_xor (v w : UInt32) :
    leBytes32 (v ^^^ w) = List.zipWith (· ^^^ ·) (leBytes32 v) (leBytes32 w) := by
  simp [leBytes32, UInt32.shiftRight_xor]

/-- Corrupting a byte of the value's field corrupts the value. -/
theorem modify_valuePayload {k : ℕ} (hk : k < 4) (x : UInt8) (v : UInt32) :
    (SharedCfg.valuePayload v).modify (2 + k) (· ^^^ x) =
      SharedCfg.valuePayload (v ^^^ byteAt k x) := by
  have hpayload : ∀ v, SharedCfg.valuePayload v = [0, 0] ++ leBytes32 v ++ [0, 0, 0, 0] :=
    fun _ => rfl
  rw [hpayload, hpayload, leBytes32_xor, toUInt8_byteAt hk]
  interval_cases k <;> simp [leBytes32]

/-- How many places there are for a corruption: bits for BITFLIP, bytes for BYTE. -/
def places (kind : UInt8) : UInt32 :=
  if kind = faultBitflip then 16 else 4

/-- There is always a place. -/
theorem places_ne_zero (kind : UInt8) : places kind ≠ 0 := by
  rw [places]
  split <;> decide

/-- What a corruption changes: one bit, or one byte. -/
def mask (kind : UInt8) (place : UInt32) : UInt32 :=
  if kind = faultBitflip then 1 <<< place else 0xA5 <<< (8 * place)

/-- A bit of the first two bytes, as the code finds it: the byte by a shift, the bit by a mask. -/
theorem byteAt_bit {n : ℕ} (hn : n < 16) :
    byteAt (UInt32.ofNat n >>> 3).toNat (1 <<< (UInt32.ofNat n &&& 7).toUInt8) =
      1 <<< UInt32.ofNat n := by
  interval_cases n <;> decide

/-- The pattern that a BYTE combines with one byte of the value. -/
theorem byteAt_byte {n : ℕ} (hn : n < 4) : byteAt n 0xA5 = 0xA5 <<< (8 * UInt32.ofNat n) := by
  interval_cases n <;> decide

namespace SharedCfg

/-- **What a corruption does to the value.** -/
theorem corrupt_valuePayload (kind : UInt8) (g : Lcg) (v : UInt32) :
    corrupt kind g (valuePayload v) =
      (valuePayload (v ^^^ mask kind (g.below (places kind)).1), (g.below (places kind)).2) := by
  rw [corrupt, places, mask]
  split
  · have hlt : (g.below 16).1.toNat < 16 := UInt32.lt_iff_toNat_lt.mp (g.below_lt (by decide))
    have hplace := byteAt_bit hlt
    rw [UInt32.ofNat_toNat] at hplace
    have hbyte : ((g.below 16).1 >>> 3).toNat < 4 := by
      rw [UInt32.toNat_shiftRight]
      simp [Nat.shiftRight_eq_div_pow]
      omega
    simp only [modify_valuePayload hbyte, hplace]
  · have hlt : (g.below 4).1.toNat < 4 := UInt32.lt_iff_toNat_lt.mp (g.below_lt (by decide))
    have hplace := byteAt_byte hlt
    rw [UInt32.ofNat_toNat] at hplace
    simp only [modify_valuePayload hlt, hplace]

/-- The frame of a corrupted slot. -/
theorem sensorFrames_emitCorrupt (c : SharedCfg) (kind : UInt8) (seq : UInt16) (v : UInt32) :
    sensorFrames (c.emitCorrupt kind seq v).2 =
        [(seq, v ^^^ mask kind (c.rng.below (places kind)).1, c.faultId + 1)] ∧
      (c.emitCorrupt kind seq v).1.rng = (c.rng.below (places kind)).2 := by
  have hread : ∀ {d : List UInt8} {w : UInt32} (h : 2 + 3 < d.length), d = valuePayload w →
      getU32 d 2 h = w := by
    rintro d w h rfl
    exact getU32_putU32 _ 2 w (by decide)
  have hpayload := corrupt_valuePayload kind c.rng v
  refine ⟨?_, congrArg Prod.snd hpayload⟩
  simp only [emitCorrupt, sensorFrames, List.filterMap_cons, List.filterMap_nil]
  rw [hread _ (congrArg Prod.fst hpayload)]

/-! ### One slot -/

/-- The kind is the only one that is ever picked. -/
def Only (kind : UInt8) (weights : Bytes nFaultKinds) : Prop :=
  ∀ j : Fin nFaultKinds, 0 < weights.get j ↔ kind = UInt8.ofNat (j + 1)

variable {c : SharedCfg} {kind : UInt8}

/-- The pick takes one draw, and there is only one kind that it can give. -/
theorem pick_only (h : Only kind c.weights) (hkind : kind = faultBitflip ∨ kind = faultByte) :
    c.pick = (kind, { c with rng := c.rng.after 1 }) := by
  obtain ⟨j, hj⟩ : ∃ j : Fin nFaultKinds, kind = UInt8.ofNat (j + 1) := by
    rcases hkind with rfl | rfl
    · exact ⟨⟨0, by decide⟩, rfl⟩
    · exact ⟨⟨1, by decide⟩, rfl⟩
  have hpos : 0 < c.totalWeight := by
    have hweight := UInt8.lt_iff_toNat_lt.mp ((h j).mpr hj)
    have hmem : c.weights.get j ∈ c.weights.toList := by
      rw [List.Vector.get_eq_get_toList]
      exact List.get_mem _ _
    exact hweight.trans_le (List.le_sum_of_mem (List.mem_map_of_mem hmem))
  have htotal : (c.weights.toList.map UInt8.toUInt32).sum ≠ 0 := by
    rw [ne_eq, ← UInt32.toNat_inj, c.toNat_total.1]
    exact hpos.ne'
  refine Prod.ext ?_ ?_
  · -- the draw falls inside some weight, and there is only one
    have hdraw := Nat.mod_lt c.rng.nextU32.1.toNat hpos
    obtain ⟨i, hi, hweight⟩ := c.exists_kind_of_lt
      (r := UInt32.ofNat (c.rng.nextU32.1.toNat % c.totalWeight))
      (by rwa [UInt32.toNat_ofNat_of_lt' (hdraw.trans c.toNat_total.2)])
    rw [pick_of_pos hpos, hi]
    exact ((h i).mp hweight).symm
  · rw [pick, if_neg htotal, Lcg.below, if_neg htotal]
    rfl

/-- A corrupted slot, once its kind is known. -/
theorem emitSlot_corrupt (c : SharedCfg) (hkind : kind = faultBitflip ∨ kind = faultByte) :
    (c.emitSlot kind).1.rng = (((c.rng.below 50).2).below (places kind)).2 ∧
    sensorFrames (c.emitSlot kind).2 =
      [(c.seq, (100 + (c.rng.below 50).1) ^^^
        mask kind (((c.rng.below 50).2).below (places kind)).1, c.faultId + 1)] := by
  obtain ⟨hframes, hrng⟩ := sensorFrames_emitCorrupt
    { c with seq := c.seq + 1, sent := c.sent + 1, rng := (c.rng.below 50).2 } kind c.seq
    (100 + (c.rng.below 50).1)
  rw [emitSlot, emitKind_corrupt hkind]
  refine ⟨hrng, ?_⟩
  rw [sensorFrames, List.filterMap_append, ← sensorFrames, hframes]
  rfl

/-- **A corrupted slot** makes three draws. -/
theorem runNext_only (h : Only kind c.weights) (hkind : kind = faultBitflip ∨ kind = faultByte)
    (hsent : c.sent.toNat < c.packets.toNat) :
    c.runNext.2.1.rng = c.rng.after 3 ∧
    sensorFrames c.runNext.2.2 =
      [(c.seq, (100 + ((c.rng.after 1).below 50).1) ^^^
        mask kind ((c.rng.after 2).below (places kind)).1, c.faultId + 1)] := by
  have hsecond : ((c.rng.after 1).below 50).2 = c.rng.after 2 := by
    rw [((c.rng.after 1).below_of_pos (by decide)).2, ← Lcg.after_add]
  have hthird : ((c.rng.after 2).below (places kind)).2 = c.rng.after 3 := by
    rw [((c.rng.after 2).below_of_pos (places_ne_zero kind)).2, ← Lcg.after_add]
  have hslot : c.runNext.2 = emitSlot { c with rng := c.rng.after 1 } kind := by
    rw [runNext_of_lt hsent, pick_only h hkind]
  obtain ⟨hrng, hframes⟩ := emitSlot_corrupt { c with rng := c.rng.after 1 } hkind
  rw [hslot]
  simp only [hsecond, hthird] at hrng hframes
  exact ⟨hrng, hframes⟩

/-! ### Whole campaigns -/

/-- The value that a slot of such a campaign corrupts: the second of its three draws. -/
def valueAt (g : Lcg) (i : ℕ) : UInt32 :=
  100 + ((g.after (3 * i + 1)).below 50).1

/-- The place at which it corrupts it: the third draw. -/
def placeAt (kind : UInt8) (g : Lcg) (i : ℕ) : UInt32 :=
  ((g.after (3 * i + 2)).below (places kind)).1

/-- The generator is three draws further in the next slot. -/
theorem valueAt_after (g : Lcg) (i : ℕ) : valueAt (g.after 3) i = valueAt g (i + 1) := by
  have hdraws : 3 + (3 * i + 1) = 3 * (i + 1) + 1 := by omega
  rw [valueAt, valueAt, ← Lcg.after_add, hdraws]

/-- The same for the place. -/
theorem placeAt_after (kind : UInt8) (g : Lcg) (i : ℕ) :
    placeAt kind (g.after 3) i = placeAt kind g (i + 1) := by
  have hdraws : 3 + (3 * i + 2) = 3 * (i + 1) + 2 := by omega
  rw [placeAt, placeAt, ← Lcg.after_add, hdraws]

/-- The clean value is `100 + below(50)`. -/
theorem valueAt_bounds (g : Lcg) (i : ℕ) : 100 ≤ valueAt g i ∧ valueAt g i < 150 := by
  have hdraw : ((g.after (3 * i + 1)).below 50).1.toNat < 50 :=
    UInt32.lt_iff_toNat_lt.mp (Lcg.below_lt _ (by decide))
  have hvalue : (valueAt g i).toNat = 100 + ((g.after (3 * i + 1)).below 50).1.toNat := by
    rw [valueAt, UInt32.toNat_add]
    exact Nat.mod_eq_of_lt (by simp; omega)
  rw [UInt32.le_iff_toNat_le, UInt32.lt_iff_toNat_lt, hvalue]
  simp
  omega

variable {i f : ℕ}

/-- **The slots of such a campaign**, three draws each. -/
theorem calls_only (k : ℕ) (h : Only kind c.weights)
    (hkind : kind = faultBitflip ∨ kind = faultByte) (hcounts : c.Counts i f)
    (hk : i + k ≤ c.packets.toNat) {j : ℕ} (hj : j < (c.calls k).2.length) :
    (c.calls k).2[j].kind = kind ∧
      sensorFrames (c.calls k).2[j].actions =
        [(UInt16.ofNat (i + j), valueAt c.rng j ^^^ mask kind (placeAt kind c.rng j),
          UInt32.ofNat (f + j + 1))] := by
  induction k generalizing c i f j with
  | zero => exact absurd hj (Nat.not_lt_zero j)
  | succ k ih =>
      have hpick : c.pick.1 = kind := congrArg Prod.fst (pick_only h hkind)
      obtain ⟨hslot, hnext, hpackets⟩ := counts_runNext hcounts (by omega)
      obtain ⟨hrng, hframes⟩ := runNext_only h hkind (by rw [hcounts.sent]; omega)
      cases j with
      | zero =>
          have hseq : UInt16.ofNat (i + 0) = c.seq := by
            rw [Nat.add_zero, ← hcounts.seq, UInt16.ofNat_toNat]
          have hid : UInt32.ofNat (f + 0 + 1) = c.faultId + 1 := by
            rw [Nat.add_zero, ← hcounts.faultId, UInt32.ofNat_add, UInt32.ofNat_toNat]
            rfl
          rw [hseq, hid]
          exact ⟨hpick, hframes⟩
      | succ j =>
          have hone : (faultEvents c.runNext.2.2).length = 1 := by
            have hfaults : faultEvents c.runNext.2.2 = _ := hslot.faults
            rw [hfaults, if_pos]
            · rfl
            · rw [Call.kind, hpick]
              exact injected_of_corrupt hkind
          rw [hone] at hnext
          have hrest := ih (c := c.runNext.2.1) (by rwa [weights_runNext]) hnext
            (by rw [hpackets]; omega) (j := j) (by simpa [calls] using hj)
          have hi : i + 1 + j = i + (j + 1) := by omega
          have hf : f + 1 + j = f + (j + 1) := by omega
          rw [hrng, valueAt_after, placeAt_after, hi, hf] at hrest
          exact hrest

end SharedCfg

/-- The place of a corruption is one of those that there are. -/
theorem placeAt_lt (kind : UInt8) (g : Lcg) (i : ℕ) :
    SharedCfg.placeAt kind g i < places kind :=
  Lcg.below_lt _ (places_ne_zero kind)

/-- **The places rotate**, since there are three draws to a slot, and three is odd. -/
theorem placeAt_eq_iff (kind : UInt8) (g : Lcg) (i j : ℕ) :
    SharedCfg.placeAt kind g i = SharedCfg.placeAt kind g j ↔
      i ≡ j [MOD (places kind).toNat] := by
  obtain ⟨m, hm⟩ : ∃ m, (places kind).toNat = 2 ^ m := by
    rw [places]
    split
    · exact ⟨4, rfl⟩
    · exact ⟨2, rfl⟩
  rw [SharedCfg.placeAt, SharedCfg.placeAt, Lcg.below_eq_iff _ hm, hm]
  constructor
  · intro hij
    refine Nat.ModEq.cancel_left_of_coprime ?_ (Nat.ModEq.add_right_cancel' 2 hij)
    exact Nat.Coprime.pow_left m (by decide)
  · intro hij
    exact (hij.mul_left 3).add_right 2

/-- **The corruptions rotate.** In a campaign that picks nothing but BITFLIP, every slot flips one
bit of the value that the generator draws for it, and two slots flip the same of the sixteen bits
iff their numbers are the same modulo sixteen; in one that picks nothing but BYTE, every slot
changes one byte, and two slots change the same of the four bytes iff their numbers are the same
modulo four. The seed decides where the rotation begins, and how it goes. -/
theorem corruptions_rotate (cfg : CampaignConfig) (kind : UInt8)
    (hkind : kind = faultBitflip ∨ kind = faultByte) (honly : SharedCfg.Only kind cfg.weights) :
    (∀ i, SharedCfg.placeAt kind (.new cfg.seed) i < places kind) ∧
      (∀ i j, SharedCfg.placeAt kind (.new cfg.seed) i = SharedCfg.placeAt kind (.new cfg.seed) j ↔
        i ≡ j [MOD (places kind).toNat]) ∧
      (slots cfg).length = cfg.packets.toNat ∧
      ∀ i (h : i < (slots cfg).length),
        (slots cfg)[i].kind = kind ∧
        100 ≤ SharedCfg.valueAt (.new cfg.seed) i ∧ SharedCfg.valueAt (.new cfg.seed) i < 150 ∧
        sensorFrames (slots cfg)[i].actions =
          [(UInt16.ofNat i,
            SharedCfg.valueAt (.new cfg.seed) i ^^^
              mask kind (SharedCfg.placeAt kind (.new cfg.seed) i),
            UInt32.ofNat (i + 1))] := by
  refine ⟨placeAt_lt kind _, placeAt_eq_iff kind _, (SharedCfg.calls_fresh cfg le_rfl).1,
    fun i h => ?_⟩
  obtain ⟨hslot, hframes⟩ := SharedCfg.calls_only cfg.packets.toNat honly hkind
    (SharedCfg.counts_ofConfig cfg) (by rw [Nat.zero_add]; rfl) h
  rw [Nat.zero_add] at hframes
  obtain ⟨hlow, hhigh⟩ := SharedCfg.valueAt_bounds (Lcg.new cfg.seed) i
  exact ⟨hslot, hlow, hhigh, hframes⟩

/-- A campaign of seventeen BITFLIPs. -/
def bitflips : CampaignConfig where
  seed := 42
  packets := 17
  cadenceMs := 5
  weights := ⟨[3, 0, 0, 0, 0, 0, 0], rfl⟩

/-- The last of seventeen BITFLIPs flips the bit of the first one. -/
theorem bitflips_rotate :
    SharedCfg.placeAt faultBitflip (.new 42) 16 = SharedCfg.placeAt faultBitflip (.new 42) 0 ∧
      (slots bitflips).length = 17 ∧
      ∀ i (h : i < (slots bitflips).length), sensorFrames (slots bitflips)[i].actions =
        [(UInt16.ofNat i,
          SharedCfg.valueAt (.new 42) i ^^^
            mask faultBitflip (SharedCfg.placeAt faultBitflip (.new 42) i),
          UInt32.ofNat (i + 1))] := by
  have honly : SharedCfg.Only faultBitflip bitflips.weights := by
    rw [SharedCfg.Only]
    decide
  obtain ⟨-, hsame, hlength, hslots⟩ := corruptions_rotate bitflips faultBitflip (.inl rfl) honly
  exact ⟨(hsame 16 0).mpr rfl, hlength, fun i h => (hslots i h).2.2.2⟩

end FaultForge
