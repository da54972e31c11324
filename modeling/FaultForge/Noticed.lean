import FaultForge.Injector
import FaultForge.Scoring

/-!
# What the Host Notices of Drops and Replays

A campaign without other faults than drops and replays, seen from the host. `Noticed` says
what detections and ground truths a list of slot kinds gives rise to: every drop and
replay is announced, the first frame of a slot shows a gap if the slots before it were not
heard, and a replayed slot shows a replay. Late arrivals may come in between.

Two facts about `Noticed` decide what the scorer makes of it. If every drop is isolated,
the detections serve the truths in order, so first-fit pairing pairs every truth. And
there are as many gaps as drops only if every drop is isolated, so otherwise some drop
comes to nothing. `FaultForge.Calibration` connects `Noticed` to the code.

## Main results

* `Noticed.served`: isolated drops and replays are served in order.
* `Noticed.gaps`, `Noticed.isolated_of_le`: as many gaps as drops only if every drop is
  isolated.
-/

namespace FaultForge

open FirstFit

/-! ### Isolated drops -/

/-- Every drop is isolated: there is a slot before it, and the slot behind it is no drop. -/
def DropsIsolated (kinds : List UInt8) : Prop :=
  ∀ i : ℕ, kinds[i]? = some faultDrop → 0 < i ∧ ∃ k, kinds[i + 1]? = some k ∧ k ≠ faultDrop

/-- The same of the slots behind others, of which the last was heard or not. -/
def IsolatedFrom (heard : Bool) (kinds : List UInt8) : Prop :=
  ∀ i : ℕ, kinds[i]? = some faultDrop →
    (i = 0 → heard = true) ∧ ∃ k, kinds[i + 1]? = some k ∧ k ≠ faultDrop

variable {heard : Bool} {kind : UInt8} {kinds : List UInt8}

/-- In front of the first slot nothing has been heard. -/
theorem dropsIsolated_iff : DropsIsolated kinds ↔ IsolatedFrom false kinds := by
  simp [DropsIsolated, IsolatedFrom, Nat.pos_iff_ne_zero]

/-- Behind a slot that is no drop, a drop may come first. -/
theorem isolatedFrom_cons (hk : kind ≠ faultDrop) :
    IsolatedFrom heard (kind :: kinds) ↔ IsolatedFrom true kinds := by
  constructor
  · intro h i hi
    exact ⟨fun _ => rfl, (h (i + 1) hi).2⟩
  · intro h i hi
    cases i with
    | zero => exact absurd (by simpa using hi) hk
    | succ i => exact ⟨fun h0 => by simp at h0, (h i hi).2⟩

/-- A drop must come behind a slot that was heard, and before one that will be. -/
theorem isolatedFrom_drop :
    IsolatedFrom heard (faultDrop :: kinds) ↔
      heard = true ∧ (∃ k, kinds.head? = some k ∧ k ≠ faultDrop) ∧ IsolatedFrom true kinds := by
  rw [List.head?_eq_getElem?]
  constructor
  · intro h
    obtain ⟨hheard, hnext⟩ := h 0 rfl
    exact ⟨hheard rfl, hnext, fun i hi => ⟨fun _ => rfl, (h (i + 1) hi).2⟩⟩
  · rintro ⟨hheard, hnext, h⟩ i hi
    cases i with
    | zero => exact ⟨fun _ => hheard, hnext⟩
    | succ i => exact ⟨fun h0 => by simp at h0, (h i hi).2⟩

/-! ### What is noticed of the slots -/

/-- A detection of a kind for slot `i`, at a time of the run. -/
structure Seen (R : Instant → Prop) (k : DetKind) (i : ℕ) (d : Detection) : Prop where
  kind : d.kind = k
  seq : d.seq = UInt16.ofNat i
  time : R d.atTime

/-- The announcement of a fault at slot `i`, at a time of the run. -/
structure Told (R : Instant → Prop) (k : UInt8) (i : ℕ) (t : GroundTruth) : Prop where
  kind : t.kind = k
  atSeq : t.atSeq = UInt16.ofNat i
  time : R t.atTime

/-- The detections of the first frame of slot `i`, after the last slot heard: a gap if there
are slots in between, and otherwise at most a late arrival. -/
def FirstOf (R : Instant → Prop) : Option ℕ → ℕ → List Detection → Prop
  | none, _, ds => ds = []
  | some s, i, ds =>
      if s + 1 = i then ds = [] ∨ ∃ d, ds = [d] ∧ Seen R .late i d
      else ∃ d, ds = [d] ∧ Seen R .gap i d

/-- The detections and ground truths of the slots from `i` on, after the last slot heard. -/
inductive Noticed (R : Instant → Prop) :
    Option ℕ → ℕ → List UInt8 → List Detection → List GroundTruth → Prop
  | nil {last : Option ℕ} {i : ℕ} : Noticed R last i [] [] []
  | drop {last : Option ℕ} {i : ℕ} {kinds : List UInt8} {ds : List Detection}
      {t : GroundTruth} {ts : List GroundTruth} : Told R faultDrop i t →
      Noticed R last (i + 1) kinds ds ts → Noticed R last i (faultDrop :: kinds) ds (t :: ts)
  | clean {last : Option ℕ} {i : ℕ} {kind : UInt8} {kinds : List UInt8}
      {first ds : List Detection} {ts : List GroundTruth} : ¬ Injected kind →
      FirstOf R last i first → Noticed R (some i) (i + 1) kinds ds ts →
      Noticed R last i (kind :: kinds) (first ++ ds) ts
  | replay {last : Option ℕ} {i : ℕ} {kinds : List UInt8} {first ds : List Detection}
      {d : Detection} {t : GroundTruth} {ts : List GroundTruth} : FirstOf R last i first →
      Seen R .replay i d → Told R faultReplay i t → Noticed R (some i) (i + 1) kinds ds ts →
      Noticed R last i (faultReplay :: kinds) (first ++ d :: ds) (t :: ts)

section Noticed

variable {R : Instant → Prop} {last : Option ℕ} {i : ℕ} {ds : List Detection}
  {ts : List GroundTruth}

/-- Only drops and replays are announced. -/
theorem Noticed.kind_of_mem (h : Noticed R last i kinds ds ts) :
    ∀ t ∈ ts, t.kind = faultDrop ∨ t.kind = faultReplay := by
  induction h with
  | nil => simp
  | drop ht _ ih =>
      intro t hmem
      rcases List.mem_cons.mp hmem with rfl | hmem
      · exact Or.inl ht.kind
      · exact ih t hmem
  | clean _ _ _ ih => exact ih
  | replay _ _ ht _ ih =>
      intro t hmem
      rcases List.mem_cons.mp hmem with rfl | hmem
      · exact Or.inr ht.kind
      · exact ih t hmem

/-- At most one fault is announced for each slot. -/
theorem Noticed.length_le (h : Noticed R last i kinds ds ts) : ts.length ≤ kinds.length := by
  induction h with
  | nil => exact le_rfl
  | drop _ _ ih => simpa using ih
  | clean _ _ _ ih => exact ih.trans (Nat.le_succ _)
  | replay _ _ _ _ ih => simpa using ih

/-- Every drop is announced. -/
theorem Noticed.countP_drop (h : Noticed R last i kinds ds ts) :
    ts.countP (fun t => t.kind = faultDrop) = kinds.count faultDrop := by
  induction h with
  | nil => rfl
  | drop ht _ ih => simp [ht.kind, ih]
  | clean hk _ _ ih =>
      rw [List.count_cons_of_ne (SharedCfg.ne_of_not_injected hk SharedCfg.injected_drop), ih]
  | replay _ _ ht _ ih =>
      have hne : faultReplay ≠ faultDrop := by decide
      simp [ht.kind, hne, ih]

/-! ### Isolated drops are served -/

/-- The truths that still wait for their detection before slot `i`: the drop of the slot
before, if there was one. -/
inductive Pending (R : Instant → Prop) : Option ℕ → ℕ → List GroundTruth → Prop
  | unheard (i : ℕ) : Pending R none i []
  | heard (s : ℕ) : Pending R (some s) (s + 1) []
  | dropped (s : ℕ) {t : GroundTruth} : Told R faultDrop (s + 1) t →
      Pending R (some s) (s + 2) [t]

variable {cadenceMs : UInt16} {t : GroundTruth} {d : Detection}

/-- A plausible detection within the run suits. -/
theorem suits_of_plausible (hcad : 0 < cadenceMs)
    (hspan : ∀ a b, R a → R b → a.millisSince b < 2 ^ 63) (hd : R d.atTime) (ht : R t.atTime)
    (hkind : d.kind ∈ expectedDets t.kind) (hseq : circularDist d.seq t.atSeq ≤ 2) :
    suits cadenceMs t d = true := by
  have hdist : dseqDiff d.seq t.atSeq ≤ 2 := by
    rw [UInt32.le_iff_toNat_le, toNat_dseqDiff]
    exact hseq
  simp only [suits, Bool.and_eq_true, List.contains_iff_mem, decide_eq_true_eq]
  exact ⟨⟨hkind, hdist⟩, timeOk_of_lt hcad (hspan _ _ hd ht)⟩

/-- The gap that follows a single drop suits it. -/
theorem suits_gap (hcad : 0 < cadenceMs)
    (hspan : ∀ a b, R a → R b → a.millisSince b < 2 ^ 63) (ht : Told R faultDrop i t)
    (hd : Seen R .gap (i + 1) d) : suits cadenceMs t d = true := by
  refine suits_of_plausible hcad hspan hd.time ht.time ?_ ?_
  · rw [hd.kind, ht.kind]
    decide
  · have hone : UInt16.ofNat (i + 1) - UInt16.ofNat i = 1 := by
      rw [UInt16.ofNat_add, UInt16.add_comm, UInt16.add_sub_cancel]
      rfl
    rw [hd.seq, ht.atSeq, circularDist, hone]
    exact (min_le_left _ _).trans (by decide)

/-- The second copy of a replayed frame suits the replay. -/
theorem suits_replay (hcad : 0 < cadenceMs)
    (hspan : ∀ a b, R a → R b → a.millisSince b < 2 ^ 63) (ht : Told R faultReplay i t)
    (hd : Seen R .replay i d) : suits cadenceMs t d = true := by
  refine suits_of_plausible hcad hspan hd.time ht.time ?_ ?_
  · rw [hd.kind, ht.kind]
    decide
  · rw [hd.seq, ht.atSeq, circularDist, UInt16.sub_self]
    exact (min_le_left _ _).trans (by decide)

/-- A late arrival suits neither drops nor replays. -/
theorem not_suits_late (ht : t.kind = faultDrop ∨ t.kind = faultReplay)
    (hd : d.kind = .late) : suits cadenceMs t d = false := by
  by_contra h
  have hkind := (plausible_of_suits (by simpa using h)).1
  rw [hd] at hkind
  rcases ht with ht | ht <;> rw [ht] at hkind <;> exact absurd hkind (by decide)

/-- The first frame of a slot serves what is pending before it. -/
theorem served_first (hcad : 0 < cadenceMs)
    (hspan : ∀ a b, R a → R b → a.millisSince b < 2 ^ 63) {first : List Detection}
    {pend : List GroundTruth} (hfirst : FirstOf R last i first) (hpend : Pending R last i pend)
    (hkinds : ∀ t ∈ ts, t.kind = faultDrop ∨ t.kind = faultReplay)
    (h : Served (suits cadenceMs) ds ts) :
    Served (suits cadenceMs) (first ++ ds) (pend ++ ts) := by
  cases hpend with
  | unheard =>
      obtain rfl : first = [] := hfirst
      exact h
  | heard s =>
      rw [FirstOf, if_pos rfl] at hfirst
      rcases hfirst with rfl | ⟨d, rfl, hd⟩
      · exact h
      · cases ts with
        | nil => exact .nil _
        | cons t ts => exact .skip (not_suits_late (hkinds t (List.mem_cons_self ..)) hd.kind) h
  | dropped s ht =>
      rw [FirstOf, if_neg (by omega)] at hfirst
      obtain ⟨d, rfl, hd⟩ := hfirst
      exact .take (suits_gap hcad hspan ht hd) h

/-- **If every drop is isolated, the detections serve the truths in order.** -/
theorem Noticed.served (hcad : 0 < cadenceMs)
    (hspan : ∀ a b, R a → R b → a.millisSince b < 2 ^ 63) (h : Noticed R last i kinds ds ts)
    (hiso : IsolatedFrom last.isSome kinds) {pend : List GroundTruth}
    (hpend : Pending R last i pend)
    (hnext : pend ≠ [] → ∃ k, kinds.head? = some k ∧ k ≠ faultDrop) :
    Served (suits cadenceMs) ds (pend ++ ts) := by
  induction h generalizing pend with
  | nil =>
      cases hpend with
      | unheard => exact .nil _
      | heard => exact .nil _
      | dropped =>
          obtain ⟨k, hk, -⟩ := hnext (by simp)
          simp at hk
  | @drop last i kinds ds t ts ht h ih =>
      obtain ⟨hheard, hhead, hrest⟩ := isolatedFrom_drop.mp hiso
      cases hpend with
      | unheard => simp at hheard
      | heard s => exact ih hrest (.dropped s ht) fun _ => hhead
      | dropped =>
          -- the slot behind a pending drop is no drop
          obtain ⟨k, hk, hne⟩ := hnext (by simp)
          exact absurd (by simpa using hk) hne.symm
  | @clean last i kind kinds first ds ts hk hfirst h ih =>
      have hne := SharedCfg.ne_of_not_injected hk SharedCfg.injected_drop
      have hrest := ih ((isolatedFrom_cons hne).mp hiso) (.heard i) (by simp)
      exact served_first hcad hspan hfirst hpend h.kind_of_mem hrest
  | @replay last i kinds first ds d t ts hfirst hd ht h ih =>
      have hrest := ih ((isolatedFrom_cons (by decide)).mp hiso) (.heard i) (by simp)
      refine served_first hcad hspan hfirst hpend (fun t' ht' => ?_)
        (.take (suits_replay hcad hspan ht hd) hrest)
      rcases List.mem_cons.mp ht' with rfl | ht'
      · exact Or.inr ht.kind
      · exact h.kind_of_mem t' ht'

/-! ### As many gaps as drops -/

/-- Whether the next slot that is heard will show a gap. -/
def pendingGap : Option ℕ → ℕ → ℕ
  | none, _ => 0
  | some s, i => if s + 1 < i then 1 else 0

/-- The first frame of a slot that is heard shows the drops before it as one gap. -/
theorem countKind_gap_first {first : List Detection} (hfirst : FirstOf R last i first)
    (hlast : ∀ s ∈ last, s < i) : countKind .gap first = pendingGap last i := by
  cases last with
  | none =>
      obtain rfl : first = [] := hfirst
      rfl
  | some s =>
      have hs : s < i := hlast s rfl
      rw [FirstOf] at hfirst
      split at hfirst
      · next hi =>
        rw [pendingGap, if_neg (by omega)]
        rcases hfirst with rfl | ⟨d, rfl, hd⟩
        · rfl
        · simp [countKind, hd.kind]
      · next hi =>
        obtain ⟨d, rfl, hd⟩ := hfirst
        rw [pendingGap, if_pos (by omega)]
        simp [countKind, hd.kind]

/-- There are at most as many gaps as drops, and only if every drop is isolated there are
as many. -/
structure GapsBounded (last : Option ℕ) (i : ℕ) (kinds : List UInt8) (ds : List Detection) :
    Prop where
  le : countKind .gap ds ≤ kinds.count faultDrop + pendingGap last i
  isolated : kinds.count faultDrop + pendingGap last i ≤ countKind .gap ds →
    IsolatedFrom last.isSome kinds ∧
      (pendingGap last i = 1 → ∃ k, kinds.head? = some k ∧ k ≠ faultDrop)

/-- A slot that is heard: its first frame shows the drops before it. -/
theorem GapsBounded.cons_heard {kind : UInt8} {first : List Detection} (hne : kind ≠ faultDrop)
    (hfirst : FirstOf R last i first) (hlast : ∀ s ∈ last, s < i)
    (h : GapsBounded (some i) (i + 1) kinds ds) :
    GapsBounded last i (kind :: kinds) (first ++ ds) := by
  have hnext : pendingGap (some i) (i + 1) = 0 := by rw [pendingGap, if_neg (by omega)]
  obtain ⟨hle, hiso⟩ := h
  rw [hnext] at hle hiso
  constructor <;>
    rw [countKind_append, countKind_gap_first hfirst hlast, List.count_cons_of_ne hne]
  · omega
  · refine fun hcount => ⟨?_, fun _ => ⟨kind, rfl, hne⟩⟩
    exact (isolatedFrom_cons hne).mpr (hiso (by omega)).1

/-- The induction over the slots: each kind keeps the bound. -/
theorem Noticed.gaps (h : Noticed R last i kinds ds ts) (hlast : ∀ s ∈ last, s < i) :
    GapsBounded last i kinds ds := by
  induction h with
  | @nil last i =>
      refine ⟨Nat.zero_le _, fun hle => ⟨fun j hj => by simp at hj, fun hp => ?_⟩⟩
      rw [hp] at hle
      exact absurd hle (by simp [countKind])
  | @drop last i kinds ds t ts ht h ih =>
      obtain ⟨hle, hiso⟩ := ih fun s hs => (hlast s hs).trans (Nat.lt_succ_self i)
      cases last with
      | none =>
          -- a drop before the first frame never shows
          simp only [pendingGap] at hle
          constructor <;> simp only [pendingGap, List.count_cons_self]
          · omega
          · exact fun hcount => absurd hcount (by omega)
      | some s =>
          have hs : s < i := hlast s rfl
          have hnext : pendingGap (some s) (i + 1) = 1 := by rw [pendingGap, if_pos (by omega)]
          rw [hnext] at hle hiso
          constructor <;> rw [List.count_cons_self]
          · omega
          · intro hcount
            have hnow : pendingGap (some s) i = 0 := by omega
            obtain ⟨hrest, hhead⟩ := hiso (by omega)
            refine ⟨isolatedFrom_drop.mpr ⟨rfl, hhead rfl, hrest⟩, fun hp => ?_⟩
            omega
  | clean hk hfirst h ih =>
      have hne := SharedCfg.ne_of_not_injected hk SharedCfg.injected_drop
      exact (ih (by simp)).cons_heard hne hfirst hlast
  | @replay last i kinds first ds d t ts hfirst hd ht h ih =>
      have hrep : countKind .gap (d :: ds) = countKind .gap ds := by simp [countKind, hd.kind]
      obtain ⟨hle, hiso⟩ := ih (by simp)
      exact GapsBounded.cons_heard (by decide) hfirst hlast ⟨hrep ▸ hle, hrep ▸ hiso⟩

/-- **As many gaps as drops only if every drop is isolated.** -/
theorem Noticed.isolated_of_le (h : Noticed R none 0 kinds ds ts)
    (hle : kinds.count faultDrop ≤ countKind .gap ds) : DropsIsolated kinds :=
  dropsIsolated_iff.mpr ((h.gaps (by simp)).isolated hle).1

end Noticed

end FaultForge
