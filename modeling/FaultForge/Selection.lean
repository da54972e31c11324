import FaultForge.Injector
import FaultForge.Lib.WeightedChoice

/-!
# The Selection of Faults

The loop of `pick` is the weighted choice of `FaultForge.Lib.WeightedChoice` in the widths of
the source (`pickFrom_eq`): seven weights of a byte each sum up to less than a `u32` holds,
so neither the total nor a subtraction overflows.

## Main results

* `pick_proportional`: the kinds are picked in exact proportion to their weights.
-/

namespace FaultForge

open WeightedChoice

/-- The subtractions that the loop of `pick` makes, each as what is subtracted from and what
is subtracted. -/
def subtractions : UInt32 → List UInt8 → List (UInt32 × UInt32)
  | _, [] => []
  | r, w :: ws =>
      if r < w.toUInt32 then [] else (r, w.toUInt32) :: subtractions (r - w.toUInt32) ws

/-- No subtraction of the loop underflows. -/
theorem le_of_mem_subtractions {r : UInt32} {ws : List UInt8} {s : UInt32 × UInt32}
    (hs : s ∈ subtractions r ws) : s.2 ≤ s.1 := by
  induction ws generalizing r with
  | nil => simp [subtractions] at hs
  | cons w ws ih =>
      rw [subtractions] at hs
      split at hs
      · simp at hs
      · next hr =>
        rcases List.mem_cons.mp hs with rfl | hs
        · exact UInt32.not_lt.mp hr
        · exact ih hs

/-- **The loop of `pick` is a weighted choice**; what is chosen is reported as a fault kind,
counted from one. -/
theorem pickFrom_eq (i : ℕ) (r : UInt32) (ws : List UInt8) :
    pickFrom i r ws =
      match choose r.toNat (ws.map UInt8.toNat) with
      | some j => UInt8.ofNat (i + j) + 1
      | none => 0 := by
  induction ws generalizing i r with
  | nil => rfl
  | cons w ws ih =>
      have hlt : r < w.toUInt32 ↔ r.toNat < w.toNat := by
        rw [UInt32.lt_iff_toNat_lt, UInt8.toNat_toUInt32]
      rw [pickFrom, List.map_cons, choose]
      by_cases hr : r < w.toUInt32
      · rw [if_pos hr, if_pos (hlt.mp hr)]
        rfl
      · have hsub : (r - w.toUInt32).toNat = r.toNat - w.toNat := by
          rw [UInt32.toNat_sub_of_le _ _ (UInt32.not_lt.mp hr), UInt8.toNat_toUInt32]
        rw [if_neg hr, if_neg (fun h => hr (hlt.mpr h)), ih, hsub]
        cases choose (r.toNat - w.toNat) (ws.map UInt8.toNat) with
        | none => rfl
        | some j => simp [Nat.add_assoc, Nat.add_comm 1]

namespace SharedCfg

/-- The sum of the weights. -/
def totalWeight (c : SharedCfg) : ℕ :=
  (c.weights.toList.map UInt8.toNat).sum

/-- The total that `pick` computes does not overflow. -/
theorem toNat_total (c : SharedCfg) :
    ((c.weights.toList.map UInt8.toUInt32).sum).toNat = c.totalWeight ∧
      c.totalWeight < 2 ^ 32 := by
  have hsum : ∀ ws : List UInt8, ws.length ≤ 7 →
      ((ws.map UInt8.toUInt32).sum).toNat = (ws.map UInt8.toNat).sum ∧
        (ws.map UInt8.toNat).sum ≤ ws.length * 255 := by
    intro ws
    induction ws with
    | nil => simp
    | cons w ws ih =>
        intro hlen
        rw [List.length_cons] at hlen
        obtain ⟨hnat, hle⟩ := ih (by omega)
        have hw : w.toNat < 2 ^ 8 := w.toNat_lt
        rw [List.map_cons, List.sum_cons, List.map_cons, List.sum_cons, UInt32.toNat_add, hnat,
          UInt8.toNat_toUInt32, List.length_cons]
        omega
  have hlen : c.weights.toList.length = 7 := c.weights.toList_length
  obtain ⟨hnat, hle⟩ := hsum c.weights.toList hlen.le
  refine ⟨hnat, ?_⟩
  rw [totalWeight]
  omega

/-- The draws that the loop maps to a kind are those of the weighted choice. -/
theorem pickFrom_eq_kind_iff (c : SharedCfg) {r : UInt32} {j : ℕ} (hj : j < nFaultKinds) :
    pickFrom 0 r c.weights.toList = UInt8.ofNat (j + 1) ↔
      choose r.toNat (c.weights.toList.map UInt8.toNat) = some j := by
  have hj : j < 7 := hj
  rw [pickFrom_eq]
  cases h : choose r.toNat (c.weights.toList.map UInt8.toNat) with
  | none =>
      have hne : (0 : UInt8) ≠ UInt8.ofNat (j + 1) := by
        rw [ne_eq, ← UInt8.toNat_inj, UInt8.toNat_zero, UInt8.toNat_ofNat']
        omega
      exact iff_of_false hne (by simp)
  | some i =>
      have hi : i < 7 := by
        obtain ⟨w, hw, -⟩ := pos_of_choose h
        obtain ⟨hlt, -⟩ := List.getElem?_eq_some_iff.mp hw
        rw [List.length_map] at hlt
        exact hlt.trans_eq c.weights.toList_length
      have hkind : UInt8.ofNat (0 + i) + 1 = UInt8.ofNat (j + 1) ↔ i = j := by
        rw [← UInt8.toNat_inj, UInt8.toNat_add, UInt8.toNat_ofNat', UInt8.toNat_ofNat',
          UInt8.toNat_one]
        omega
      exact hkind.trans Option.some_inj.symm

/-- Every draw below the total is mapped to a kind of positive weight. -/
theorem exists_kind_of_lt (c : SharedCfg) {r : UInt32} (hr : r.toNat < c.totalWeight) :
    ∃ j : Fin nFaultKinds, pickFrom 0 r c.weights.toList = UInt8.ofNat (j + 1) ∧
      0 < c.weights.get j := by
  obtain ⟨j, hj⟩ := Option.isSome_iff_exists.mp (isSome_choose_iff.mpr hr)
  obtain ⟨w, hw, hpos⟩ := pos_of_choose hj
  rw [List.getElem?_map, Option.map_eq_some_iff] at hw
  obtain ⟨b, hb, rfl⟩ := hw
  obtain ⟨hlt, hget⟩ := List.getElem?_eq_some_iff.mp hb
  have hlt : j < nFaultKinds := hlt.trans_eq c.weights.toList_length
  refine ⟨⟨j, hlt⟩, (c.pickFrom_eq_kind_iff hlt).mpr hj, ?_⟩
  rw [List.Vector.get_eq_get_toList, UInt8.lt_iff_toNat_lt]
  exact hpos.trans_eq (congrArg UInt8.toNat hget.symm)

/-- What `pick` returns: the kind for a draw below the total. -/
theorem pick_of_pos {c : SharedCfg} (h : 0 < c.totalWeight) :
    c.pick.1 = pickFrom 0 (UInt32.ofNat (c.rng.nextU32.1.toNat % c.totalWeight))
      c.weights.toList := by
  obtain ⟨htotal, -⟩ := c.toNat_total
  have hne : (c.weights.toList.map UInt8.toUInt32).sum ≠ 0 := by
    rw [ne_eq, ← UInt32.toNat_inj, htotal]
    exact h.ne'
  have hdraw : c.rng.nextU32.1 % (c.weights.toList.map UInt8.toUInt32).sum =
      UInt32.ofNat (c.rng.nextU32.1.toNat % c.totalWeight) := by
    rw [← htotal, ← UInt32.toNat_mod, UInt32.ofNat_toNat]
  rw [pick, if_neg hne, Lcg.below, if_neg hne, hdraw]

/-- Without weights nothing is picked, and no draw is made. -/
theorem pick_of_zero {c : SharedCfg} (h : c.totalWeight = 0) : c.pick = (0, c) := by
  rw [pick, if_pos]
  rw [← UInt32.toNat_inj, c.toNat_total.1, h]
  rfl

/-- **The kinds are picked in exact proportion to their weights.** When some weight is
positive, whatever the state of the generator: `pick` returns a kind of positive weight,
namely what its loop gives for the next draw modulo the total; no subtraction of the loop
underflows, its fall-through is not reached, and as many of the possible draws are mapped to
a kind as its weight says. When all weights are zero, `pick` returns 0 and draws nothing. -/
theorem pick_proportional (c : SharedCfg) :
    (0 < c.totalWeight →
      (∃ j : Fin nFaultKinds, c.pick.1 = UInt8.ofNat (j + 1) ∧ 0 < c.weights.get j) ∧
      c.pick.1 = pickFrom 0 (UInt32.ofNat (c.rng.nextU32.1.toNat % c.totalWeight))
        c.weights.toList ∧
      (∀ r < c.totalWeight, pickFrom 0 (UInt32.ofNat r) c.weights.toList ≠ 0 ∧
        ∀ s ∈ subtractions (UInt32.ofNat r) c.weights.toList, s.2 ≤ s.1) ∧
      ∀ j : Fin nFaultKinds,
        ((Finset.range c.totalWeight).filter fun r =>
          pickFrom 0 (UInt32.ofNat r) c.weights.toList = UInt8.ofNat (j + 1)).card =
            (c.weights.get j).toNat) ∧
    (c.totalWeight = 0 → c.pick = (0, c)) := by
  have hdraw : ∀ r < c.totalWeight, (UInt32.ofNat r).toNat = r := fun r hr =>
    UInt32.toNat_ofNat_of_lt' (hr.trans c.toNat_total.2)
  refine ⟨fun hpos => ⟨?_, pick_of_pos hpos, fun r hr => ⟨?_, ?_⟩, fun j => ?_⟩, pick_of_zero⟩
  · have hlt := Nat.mod_lt c.rng.nextU32.1.toNat hpos
    rw [pick_of_pos hpos]
    exact c.exists_kind_of_lt (by rwa [hdraw _ hlt])
  · obtain ⟨j, hj, -⟩ := c.exists_kind_of_lt (r := UInt32.ofNat r) (by rwa [hdraw r hr])
    have hj7 : j.val < 7 := j.isLt
    rw [hj, ne_eq, ← UInt8.toNat_inj, UInt8.toNat_ofNat', UInt8.toNat_zero]
    omega
  · exact fun s hs => le_of_mem_subtractions hs
  · have hfilter : ((Finset.range c.totalWeight).filter fun r =>
        pickFrom 0 (UInt32.ofNat r) c.weights.toList = UInt8.ofNat (j + 1)) =
          (Finset.range c.totalWeight).filter fun r =>
            choose r (c.weights.toList.map UInt8.toNat) = some j.val := by
      refine Finset.filter_congr fun r hr => ?_
      rw [c.pickFrom_eq_kind_iff j.isLt, hdraw r (Finset.mem_range.mp hr)]
    rw [hfilter]
    refine card_draws ?_
    rw [List.getElem?_map, List.Vector.get_eq_get_toList]
    simp

/-- The weights of the "emi" profile add up to 85, of which 25 draws are a burst. -/
theorem burst_proportional :
    ((Finset.range 85).filter fun r =>
      pickFrom 0 (UInt32.ofNat r) [30, 15, 0, 5, 10, 25, 0] = faultBurst).card = 25 :=
  ((pick_proportional (ofConfig ⟨1, 100, 5, ⟨[30, 15, 0, 5, 10, 25, 0], rfl⟩⟩)).1
    (by decide)).2.2.2 ⟨5, by decide⟩

end SharedCfg

end FaultForge
