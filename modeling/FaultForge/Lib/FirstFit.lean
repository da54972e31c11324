import Mathlib.Data.List.Basic
import Mathlib.Data.List.Forall2
import Mathlib.Data.List.Nodup
import Mathlib.Data.List.Perm.Subperm
import Mathlib.Data.List.Range
import Mathlib.Data.List.ReduceOption

/-!
# First-Fit Pairing with a Moving Cursor

Requests `ts` are paired with offers `ds` in one pass: a cursor starts at the first
offer, each request takes the first offer at or after the cursor that suits it
(`ok t d`), and the cursor moves behind the offer taken. A request that nothing suits
stays unpaired and leaves the cursor where it is. `pairing` lists, for each request, the
position of the offer it takes.

## Main results

* `pairing_increasing`: the positions taken strictly increase, so no offer is taken twice.
* `length_taken_le_countP`: how many requests are paired is bounded by the requests and
  by the offers that can be in a pair.
* `maximal_iff_noneStranded`: the pairing is maximal iff no request comes to nothing
  while an offer that the cursor has jumped over suits it (`NoneStranded`).
* `isSome_of_served`: every request is paired when the offers serve the requests in order.
* `forall_isSome_iff`: every request is paired iff the requests can be assigned, in order, to
  offers that suit them, by whatever means.
* `forall_wanted_iff`: when the pairs are right although the test of a pair is too wide
  (`NonePassed`).
* `taken_append`, `taken_filter`: the offers taken, for requests in two parts and without the
  offers that suit no request.
-/

namespace FirstFit

variable {τ δ : Type*} (ok : τ → δ → Bool)

/-- The first position at or after the cursor whose offer suits the request. -/
def scan (ds : List δ) (c : ℕ) (t : τ) : Option ℕ :=
  ((ds.drop c).findIdx? (ok t)).map (c + ·)

/-- The positions that the requests take, from a cursor on. -/
def pairing (ds : List δ) : ℕ → List τ → List (Option ℕ)
  | _, [] => []
  | c, t :: ts =>
      match scan ok ds c t with
      | some j => some j :: pairing ds (j + 1) ts
      | none => none :: pairing ds c ts

variable {ok} {ds : List δ} {c : ℕ} {t : τ} {ts : List τ}

/-! ### One request -/

/-- What the request takes suits it, and nothing between the cursor and it does. -/
theorem scan_eq_some {j : ℕ} (h : scan ok ds c t = some j) :
    c ≤ j ∧ (∃ d, ds[j]? = some d ∧ ok t d = true) ∧
      ∀ k d, c ≤ k → k < j → ds[k]? = some d → ok t d = false := by
  obtain ⟨i, hi, rfl⟩ := Option.map_eq_some_iff.mp h
  obtain ⟨hlt, hok, hbefore⟩ := List.findIdx?_eq_some_iff_getElem.mp hi
  rw [List.getElem_drop] at hok
  rw [List.length_drop] at hlt
  refine ⟨Nat.le_add_right c i, ⟨_, List.getElem?_eq_getElem (by omega), hok⟩, ?_⟩
  intro k d hck hki hd
  obtain ⟨hk, rfl⟩ := List.getElem?_eq_some_iff.mp hd
  have hnot := hbefore (k - c) (by omega)
  rw [List.getElem_drop] at hnot
  have hkc : c + (k - c) = k := by omega
  simpa [hkc] using hnot

/-- When the request takes nothing, nothing from the cursor on suits it. -/
theorem scan_eq_none (h : scan ok ds c t = none) {k : ℕ} {d : δ} (hck : c ≤ k)
    (hd : ds[k]? = some d) : ok t d = false := by
  have hall := List.findIdx?_eq_none_iff.mp (Option.map_eq_none_iff.mp h)
  refine hall d (List.mem_iff_getElem?.mpr ⟨k - c, ?_⟩)
  rw [List.getElem?_drop, Nat.add_sub_cancel' hck]
  exact hd

/-- The request takes an offer no later than any that suits it from the cursor on. -/
theorem exists_scan_le {k : ℕ} {d : δ} (hck : c ≤ k) (hd : ds[k]? = some d)
    (hok : ok t d = true) : ∃ j ≤ k, scan ok ds c t = some j := by
  cases hscan : scan ok ds c t with
  | none => exact absurd hok (by simp [scan_eq_none hscan hck hd])
  | some j =>
      refine ⟨j, ?_, rfl⟩
      by_contra hlt
      obtain ⟨-, -, hbefore⟩ := scan_eq_some hscan
      exact absurd hok (by simp [hbefore k d hck (by omega) hd])

/-- A request that takes an offer moves the cursor behind it. -/
theorem pairing_cons_some {j : ℕ} (h : scan ok ds c t = some j) :
    pairing ok ds c (t :: ts) = some j :: pairing ok ds (j + 1) ts := by
  simp only [pairing, h]

/-- A request that takes none leaves the cursor. -/
theorem pairing_cons_none (h : scan ok ds c t = none) :
    pairing ok ds c (t :: ts) = none :: pairing ok ds c ts := by
  simp only [pairing, h]

/-- Only the value of a test on the entries of the list matters. -/
theorem findIdx?_congr {p q : δ → Bool} {l : List δ} (h : ∀ d ∈ l, p d = q d) :
    l.findIdx? p = l.findIdx? q := by
  induction l with
  | nil => rfl
  | cons d l ih =>
      rw [List.findIdx?_cons, List.findIdx?_cons, h d (List.mem_cons_self ..),
        ih fun d hd => h d (List.mem_cons_of_mem _ hd)]

/-- Only the test of the requests with the offers matters. -/
theorem pairing_congr {ok' : τ → δ → Bool} (h : ∀ t ∈ ts, ∀ d ∈ ds, ok t d = ok' t d) :
    pairing ok ds c ts = pairing ok' ds c ts := by
  induction ts generalizing c with
  | nil => rfl
  | cons t ts ih =>
      have hrest := fun c => ih (c := c) fun t ht => h t (List.mem_cons_of_mem _ ht)
      have hscan : scan ok ds c t = scan ok' ds c t :=
        congrArg (Option.map (c + ·)) <| findIdx?_congr fun d hd =>
          h t (List.mem_cons_self ..) d (List.mem_of_mem_drop hd)
      simp only [pairing, hscan, hrest]

/-! ### Order -/

/-- **The positions taken strictly increase**, from the cursor on and within the offers. -/
theorem pairing_increasing :
    (pairing ok ds c ts).reduceOption.Pairwise (· < ·) ∧
      ∀ j, some j ∈ pairing ok ds c ts → c ≤ j ∧ j < ds.length := by
  induction ts generalizing c with
  | nil => simp [pairing]
  | cons t ts ih =>
      cases h : scan ok ds c t with
      | none => simpa [pairing_cons_none h] using ih
      | some j =>
          obtain ⟨hcj, ⟨d, hd, -⟩, -⟩ := scan_eq_some h
          obtain ⟨hpw, hmem⟩ := ih (c := j + 1)
          rw [pairing_cons_some h]
          refine ⟨?_, fun k hk => ?_⟩
          · refine List.Pairwise.cons (fun k hk => ?_) hpw
            exact (hmem k (List.reduceOption_mem_iff.mp hk)).1
          · rcases List.mem_cons.mp hk with hk | hk
            · obtain rfl := Option.some.inj hk
              exact ⟨hcj, (List.getElem?_eq_some_iff.mp hd).1⟩
            · obtain ⟨hle, hlt⟩ := hmem k hk
              exact ⟨by omega, hlt⟩

/-! ### Counting -/

/-- No more requests are paired than there are offers. -/
theorem length_taken_le_length : (pairing ok ds 0 ts).reduceOption.length ≤ ds.length := by
  obtain ⟨hpw, hmem⟩ := @pairing_increasing _ _ ok ds 0 ts
  have hsub : (pairing ok ds 0 ts).reduceOption ⊆ List.range ds.length := by
    intro j hj
    exact List.mem_range.mpr (hmem j (List.reduceOption_mem_iff.mp hj)).2
  have hnodup : (pairing ok ds 0 ts).reduceOption.Nodup := hpw.imp fun h => Nat.ne_of_lt h
  simpa using (hnodup.subperm hsub).length_le

/-- No more requests are paired than there are requests that some offer can suit. -/
theorem length_taken_le_countP {p : τ → Bool} (hp : ∀ t d, ok t d = true → p t = true) :
    (pairing ok ds c ts).reduceOption.length ≤ ts.countP p := by
  induction ts generalizing c with
  | nil => simp [pairing]
  | cons t ts ih =>
      cases h : scan ok ds c t with
      | none =>
          rw [pairing_cons_none h, List.countP_cons]
          exact (ih (c := c)).trans (Nat.le_add_right _ _)
      | some j =>
          obtain ⟨-, ⟨d, -, hok⟩, -⟩ := scan_eq_some h
          rw [pairing_cons_some h, List.countP_cons, if_pos (hp t d hok),
            List.reduceOption_cons_of_some, List.length_cons]
          exact Nat.succ_le_succ ih

/-- When every request is paired, the requests of one kind are at most as many as the
offers that can suit that kind. -/
theorem countP_le_of_isSome {p : τ → Bool} {q : δ → Bool}
    (hpq : ∀ t d, ok t d = true → p t = true → q d = true)
    (hall : ∀ o ∈ pairing ok ds c ts, o.isSome = true) :
    ts.countP p ≤ (ds.drop c).countP q := by
  induction ts generalizing c with
  | nil => simp
  | cons t ts ih =>
      cases h : scan ok ds c t with
      | none =>
          rw [pairing_cons_none h] at hall
          exact absurd (hall none (List.mem_cons_self ..)) (by simp)
      | some j =>
          rw [pairing_cons_some h] at hall
          obtain ⟨hcj, ⟨d, hd, hok⟩, -⟩ := scan_eq_some h
          obtain ⟨hj, rfl⟩ := List.getElem?_eq_some_iff.mp hd
          have hrest := ih (c := j + 1) fun o ho => hall o (List.mem_cons_of_mem _ ho)
          -- the offers from `j` on are a suffix of those from the cursor on
          have hsuffix : (ds.drop j).countP q ≤ (ds.drop c).countP q := by
            rw [show j = c + (j - c) by omega, ← List.drop_drop]
            exact (List.drop_sublist _ _).countP_le
          rw [List.drop_eq_getElem_cons hj, List.countP_cons] at hsuffix
          rw [List.countP_cons]
          have hone : (if p t = true then 1 else 0) ≤ if q ds[j] = true then 1 else 0 := by
            by_cases hp : p t = true
            · rw [if_pos (hpq t _ hok hp)]
              split <;> omega
            · rw [if_neg hp]
              exact Nat.zero_le _
          omega

/-! ### Maximality -/

variable (ok) in
/-- The pairing is maximal: an offer that suits an unpaired request is taken. -/
def Maximal (ds : List δ) (ts : List τ) : Prop :=
  ∀ (i : ℕ) (t : τ), ts[i]? = some t → (pairing ok ds 0 ts)[i]? = some none →
    ∀ (j : ℕ) (d : δ), ds[j]? = some d → ok t d = true → some j ∈ pairing ok ds 0 ts

variable (ok) in
/-- No request comes to nothing while an offer that the cursor has jumped over suits it.
The first list holds the offers jumped over so far, the second those from the cursor on. -/
def NoneStranded : List δ → List δ → List τ → Prop
  | _, _, [] => True
  | passed, ahead, t :: ts =>
      match ahead.findIdx? (ok t) with
      | some j => NoneStranded (passed ++ ahead.take j) (ahead.drop (j + 1)) ts
      | none => (∀ d ∈ passed, ok t d = false) ∧ NoneStranded passed ahead ts

variable (ok) in
/-- Maximality from a cursor on, as far as the offers from the cursor on and the offers
`free` before it are concerned. -/
def MaximalFrom (ds : List δ) (free : ℕ → Prop) (c : ℕ) (ts : List τ) : Prop :=
  ∀ (i : ℕ) (t : τ), ts[i]? = some t → (pairing ok ds c ts)[i]? = some none →
    ∀ (j : ℕ) (d : δ), ds[j]? = some d → free j ∨ c ≤ j → ok t d = true →
      some j ∈ pairing ok ds c ts

/-- A request that takes an offer leaves those between the cursor and it free. -/
theorem maximalFrom_cons_some {free : ℕ → Prop} {k : ℕ} (hfree : ∀ j, free j → j < c)
    (h : scan ok ds c t = some k) :
    MaximalFrom ok ds free c (t :: ts) ↔
      MaximalFrom ok ds (fun j => free j ∨ c ≤ j ∧ j < k) (k + 1) ts := by
  obtain ⟨hck, -, -⟩ := scan_eq_some h
  simp only [MaximalFrom, pairing_cons_some h]
  constructor
  · intro hmax i s hs hnone j d hd hj hok
    have hreach : free j ∨ c ≤ j := by
      rcases hj with (hj | hj) | hj
      · exact Or.inl hj
      · exact Or.inr hj.1
      · exact Or.inr (by omega)
    have hmem := hmax (i + 1) s (by simpa using hs) (by simpa using hnone) j d hd hreach hok
    rcases List.mem_cons.mp hmem with hjk | hmem
    · obtain rfl : j = k := Option.some.inj hjk
      rcases hj with (hj | hj) | hj
      · exact absurd (hfree j hj) (by omega)
      · omega
      · omega
    · exact hmem
  · intro hmax i s hs hnone j d hd hj hok
    cases i with
    | zero => simp at hnone
    | succ i =>
        by_cases hjk : j = k
        · exact hjk ▸ List.mem_cons_self ..
        · refine List.mem_cons_of_mem _
            (hmax i s (by simpa using hs) (by simpa using hnone) j d hd ?_ hok)
          rcases hj with hj | hj
          · exact Or.inl (Or.inl hj)
          · rcases Nat.lt_or_gt_of_ne hjk with hlt | hgt
            · exact Or.inl (Or.inr ⟨hj, hlt⟩)
            · exact Or.inr hgt

/-- A request that takes nothing must not suit a free offer. -/
theorem maximalFrom_cons_none {free : ℕ → Prop} (hfree : ∀ j, free j → j < c)
    (h : scan ok ds c t = none) :
    MaximalFrom ok ds free c (t :: ts) ↔
      (∀ (j : ℕ) d, ds[j]? = some d → free j → ok t d = false) ∧ MaximalFrom ok ds free c ts := by
  simp only [MaximalFrom, pairing_cons_none h]
  constructor
  · intro hmax
    refine ⟨fun j d hd hj => ?_, fun i s hs hnone j d hd hj hok => ?_⟩
    · by_contra hok
      have hmem := hmax 0 t rfl rfl j d hd (Or.inl hj) (by simpa using hok)
      have hmem : some j ∈ pairing ok ds c ts := by simpa using hmem
      exact absurd ((pairing_increasing.2 j hmem).1) (Nat.not_le_of_lt (hfree j hj))
    · simpa using hmax (i + 1) s (by simpa using hs) (by simpa using hnone) j d hd hj hok
  · rintro ⟨hjumped, hmax⟩ i s hs hnone j d hd hj hok
    refine List.mem_cons_of_mem _ ?_
    cases i with
    | zero =>
        obtain rfl : t = s := by simpa using hs
        rcases hj with hj | hj
        · exact absurd hok (by simp [hjumped j d hd hj])
        · exact absurd hok (by simp [scan_eq_none h hj hd])
    | succ i => exact hmax i s (by simpa using hs) (by simpa using hnone) j d hd hj hok

/-- Maximality and `NoneStranded` agree from every cursor on, when the free offers are the
ones that have been jumped over. -/
theorem maximalFrom_iff_noneStranded {free : ℕ → Prop} {passed : List δ}
    (hfree : ∀ j, free j → j < c) (hpassed : ∀ d, d ∈ passed ↔ ∃ j : ℕ, free j ∧ ds[j]? = some d) :
    MaximalFrom ok ds free c ts ↔ NoneStranded ok passed (ds.drop c) ts := by
  induction ts generalizing c free passed with
  | nil => simp [MaximalFrom, NoneStranded]
  | cons t ts ih =>
      cases hscan : (ds.drop c).findIdx? (ok t) with
      | none =>
          have h : scan ok ds c t = none := by rw [scan, hscan]; rfl
          rw [maximalFrom_cons_none hfree h, ih hfree hpassed]
          simp only [NoneStranded, hscan, hpassed]
          refine and_congr_left fun _ => ⟨?_, fun hno j d hd hj => hno d ⟨j, hj, hd⟩⟩
          rintro hno d ⟨j, hj, hd⟩
          exact hno j d hd hj
      | some i =>
          have h : scan ok ds c t = some (c + i) := by rw [scan, hscan]; rfl
          have hfree' : ∀ j, free j ∨ c ≤ j ∧ j < c + i → j < c + i + 1 := by
            rintro j (hj | hj)
            · have := hfree j hj
              omega
            · omega
          have hpassed' : ∀ d, d ∈ passed ++ (ds.drop c).take i ↔
              ∃ j, (free j ∨ c ≤ j ∧ j < c + i) ∧ ds[j]? = some d := by
            intro d
            rw [List.mem_append, hpassed, List.mem_iff_getElem?]
            constructor
            · rintro (⟨j, hj, hd⟩ | ⟨k, hk⟩)
              · exact ⟨j, Or.inl hj, hd⟩
              · rw [List.getElem?_take] at hk
                split at hk
                · rw [List.getElem?_drop] at hk
                  exact ⟨c + k, Or.inr (by omega), hk⟩
                · simp at hk
            · rintro ⟨j, hj | hj, hd⟩
              · exact Or.inl ⟨j, hj, hd⟩
              · refine Or.inr ⟨j - c, ?_⟩
                rw [List.getElem?_take, if_pos (by omega), List.getElem?_drop,
                  Nat.add_sub_cancel' hj.1]
                exact hd
          rw [maximalFrom_cons_some hfree h, ih hfree' hpassed']
          simp only [NoneStranded, hscan, List.drop_drop]
          rw [show c + i + 1 = c + (i + 1) by omega]

/-- **The pairing is maximal iff no request is stranded.** -/
theorem maximal_iff_noneStranded : Maximal ok ds ts ↔ NoneStranded ok [] ds ts := by
  have h : MaximalFrom ok ds (fun _ => False) 0 ts ↔ NoneStranded ok [] (ds.drop 0) ts :=
    maximalFrom_iff_noneStranded (fun _ hj => hj.elim) (by simp)
  rw [List.drop_zero] at h
  rw [← h]
  simp [Maximal, MaximalFrom]

/-- When no two requests are crossed, none is stranded: an offer that a request jumps over
suits no later request. -/
theorem noneStranded_of_uncrossed {passed ahead : List δ}
    (hpassed : ∀ d ∈ passed, ∀ t ∈ ts, ok t d = false)
    (h : ts.Pairwise fun t' t => ahead.Pairwise fun d d' =>
      ok t' d' = true → ok t d = true → ok t' d = true) :
    NoneStranded ok passed ahead ts := by
  induction ts generalizing passed ahead with
  | nil => trivial
  | cons t' ts ih =>
      obtain ⟨hhead, htail⟩ := List.pairwise_cons.mp h
      rw [NoneStranded]
      split
      · next j hj =>
        obtain ⟨hlt, hok, hbefore⟩ := List.findIdx?_eq_some_iff_getElem.mp hj
        refine ih (fun d hd t ht => ?_)
          (htail.imp fun hpw => hpw.sublist (List.drop_sublist _ _))
        rcases List.mem_append.mp hd with hd | hd
        · exact hpassed d hd t (List.mem_cons_of_mem _ ht)
        · obtain ⟨k, hk, rfl⟩ := List.mem_iff_getElem.mp hd
          rw [List.length_take] at hk
          rw [List.getElem_take]
          have hkj : k < j := by omega
          have hcross := List.pairwise_iff_getElem.mp (hhead t ht) k j (by omega) hlt hkj hok
          by_contra htd
          exact hbefore k hkj (hcross (by simpa using htd))
      · exact ⟨fun d hd => hpassed d hd t' (List.mem_cons_self ..),
          ih (fun d hd t ht => hpassed d hd t (List.mem_cons_of_mem _ ht)) htail⟩

/-! ### Offers in the order of the requests -/

/-- **First fit pairs every request iff anything does**: iff the requests, in order, can be
assigned to offers that suit them, each behind the one before. -/
theorem forall_isSome_iff :
    (∀ o ∈ pairing ok ds c ts, o.isSome = true) ↔
      List.SublistForall₂ (fun t d => ok t d = true) ts (ds.drop c) := by
  induction ts generalizing c with
  | nil => simp [pairing, List.SublistForall₂.nil]
  | cons t ts ih =>
      rw [List.sublistForall₂_iff]
      constructor
      · intro hall
        cases hscan : scan ok ds c t with
        | none => simp [pairing_cons_none hscan] at hall
        | some j =>
            rw [pairing_cons_some hscan] at hall
            obtain ⟨hcj, ⟨d, hd, hok⟩, -⟩ := scan_eq_some hscan
            obtain ⟨hj, rfl⟩ := List.getElem?_eq_some_iff.mp hd
            obtain ⟨l, hl, hsub⟩ := List.sublistForall₂_iff.mp
              (ih.mp fun o ho => hall o (List.mem_cons_of_mem _ ho))
            refine ⟨ds[j] :: l, .cons hok hl, ?_⟩
            have hbehind : (ds[j] :: l).Sublist (ds.drop j) := by
              rw [List.drop_eq_getElem_cons hj]
              exact hsub.cons_cons _
            exact hbehind.trans (List.drop_sublist_drop_left ds hcj)
      · rintro ⟨_, hforall, hsub⟩
        cases hforall with
        | @cons _ d _ l hok hl =>
            obtain ⟨l₁, l₂, hdrop, hd, hbehind⟩ := List.cons_sublist_iff.mp hsub
            obtain ⟨k, hk, rfl⟩ := List.mem_iff_getElem.mp hd
            have hat : ds[c + k]? = some l₁[k] := by
              rw [← List.getElem?_drop, hdrop, List.getElem?_append_left hk,
                List.getElem?_eq_getElem hk]
            -- the offer that first fit takes is not behind the one that is assigned
            obtain ⟨j, hjk, hscan⟩ := exists_scan_le (Nat.le_add_right c k) hat hok
            have hahead : l.Sublist (ds.drop (j + 1)) := by
              have hrest : ds.drop (c + l₁.length) = l₂ := by
                rw [← List.drop_drop, hdrop, List.drop_left]
              rw [← hrest] at hbehind
              exact hbehind.trans (List.drop_sublist_drop_left ds (by omega))
            rw [pairing_cons_some hscan, List.forall_mem_cons]
            exact ⟨rfl, ih.mpr (List.sublistForall₂_iff.mpr ⟨l, hl, hahead⟩)⟩

variable (ok) in
/-- The offers serve the requests in order: up to offers that do not suit the next
request, each request meets an offer that suits it. -/
inductive Served : List δ → List τ → Prop
  | nil (ds : List δ) : Served ds []
  | skip {d : δ} {ds : List δ} {t : τ} {ts : List τ} : ok t d = false →
      Served ds (t :: ts) → Served (d :: ds) (t :: ts)
  | take {d : δ} {ds : List δ} {t : τ} {ts : List τ} : ok t d = true →
      Served ds ts → Served (d :: ds) (t :: ts)

/-- Offers that serve the requests are an assignment in order. -/
theorem Served.sublistForall₂ {l : List δ} (h : Served ok l ts) :
    List.SublistForall₂ (fun t d => ok t d = true) ts l := by
  induction h with
  | nil => exact .nil
  | skip _ _ ih => exact .cons_right ih
  | take hok _ ih => exact .cons hok ih

/-- **Every request is paired** when the offers serve the requests in order. -/
theorem isSome_of_served {l : List δ} (h : Served ok l ts) (hl : ds.drop c = l) :
    ∀ o ∈ pairing ok ds c ts, o.isSome = true :=
  forall_isSome_iff.mpr (hl ▸ h.sublistForall₂)

/-- Requests that nothing suits do not matter to the others. -/
theorem pairing_filter {p : τ → Bool} (hp : ∀ t d, ok t d = true → p t = true) :
    pairing ok ds c (ts.filter p) =
      ((ts.zip (pairing ok ds c ts)).filter fun r => p r.1).map Prod.snd := by
  induction ts generalizing c with
  | nil => rfl
  | cons t ts ih =>
      cases hscan : scan ok ds c t with
      | none =>
          rw [pairing_cons_none hscan, List.zip_cons_cons, List.filter_cons, List.filter_cons]
          split
          · rw [pairing_cons_none hscan, ih, List.map_cons]
          · exact ih
      | some j =>
          obtain ⟨-, ⟨d, -, hok⟩, -⟩ := scan_eq_some hscan
          rw [pairing_cons_some hscan, List.zip_cons_cons, List.filter_cons_of_pos (hp t d hok),
            List.filter_cons_of_pos (by simpa using hp t d hok), pairing_cons_some hscan, ih,
            List.map_cons]

/-! ### A test that is too wide -/

/-- Whether a wider test stops at the same offer: it does unless it also passes an offer that
the narrow one goes over, and then it stops at an offer that the narrow one refuses. -/
theorem findIdx?_or_cases (p q : δ → Bool) (l : List δ) :
    (∀ d ∈ l.takeWhile (fun d => !p d), q d = false) ∧
        l.findIdx? (fun d => p d || q d) = l.findIdx? p ∨
      (¬ ∀ d ∈ l.takeWhile (fun d => !p d), q d = false) ∧
        ∃ i d, l.findIdx? (fun d => p d || q d) = some i ∧ l[i]? = some d ∧ p d = false := by
  induction l with
  | nil => exact .inl ⟨by simp, rfl⟩
  | cons d l ih =>
      by_cases hp : p d = true
      · exact .inl ⟨by simp [hp], by simp [List.findIdx?_cons, hp]⟩
      · by_cases hq : q d = true
        · refine .inr ⟨by simp [hp, hq], 0, d, ?_, rfl, by simpa using hp⟩
          simp [List.findIdx?_cons, hq]
        · have hfirst : (p d || q d) = false := by simp [hp, hq]
          have htake : (∀ e ∈ (d :: l).takeWhile (fun d => !p d), q e = false) ↔
              ∀ e ∈ l.takeWhile (fun d => !p d), q e = false := by
            simp [hp, hq]
          rw [htake, List.findIdx?_cons, hfirst, List.findIdx?_cons, if_neg hp]
          rcases ih with ⟨hfree, heq⟩ | ⟨hpassed, i, e, hi, he, hpe⟩
          · exact .inl ⟨hfree, by simp [heq]⟩
          · exact .inr ⟨hpassed, i + 1, e, by simp [hi], by simpa using he, hpe⟩

/-- The requests take, in order, the first offer that they want, each behind the one taken
before, and on its way none passes over a bad one. A request that finds nothing passes over
all that is ahead. -/
def NonePassed (want bad : τ → δ → Bool) : List δ → List τ → Prop
  | _, [] => True
  | ahead, t :: ts =>
      (∀ d ∈ ahead.takeWhile (fun d => !want t d), bad t d = false) ∧
        match ahead.findIdx? (want t) with
        | some j => NonePassed want bad (ahead.drop (j + 1)) ts
        | none => NonePassed want bad ahead ts

/-- **When a test that is too wide does no harm.** The pairing by a test that also lets the bad
offers pass pairs each request with one that it wants, iff no bad one is passed over when the
requests look for what they want. -/
theorem forall_wanted_iff {want bad : τ → δ → Bool}
    (hok : ∀ t d, ok t d = (want t d || bad t d)) :
    (∀ r ∈ ts.zip (pairing ok ds c ts), ∀ j ∈ r.2, ∀ d ∈ ds[j]?, want r.1 d = true) ↔
      NonePassed want bad (ds.drop c) ts := by
  induction ts generalizing c with
  | nil => simp [pairing, NonePassed]
  | cons t ts ih =>
      have htest : ok t = fun d => want t d || bad t d := funext (hok t)
      rcases findIdx?_or_cases (want t) (bad t) (ds.drop c) with
        ⟨hfree, heq⟩ | ⟨hpassed, i, d, hi, hd, hwant⟩
      · cases hfind : (ds.drop c).findIdx? (want t) with
        | none =>
            have hscan : scan ok ds c t = none := by rw [scan, htest, heq, hfind]; rfl
            rw [pairing_cons_none hscan, List.zip_cons_cons, List.forall_mem_cons, NonePassed]
            simp only [hfind]
            exact and_congr (iff_of_true (by simp) hfree) ih
        | some i =>
            have hscan : scan ok ds c t = some (c + i) := by rw [scan, htest, heq, hfind]; rfl
            have hwant : ∀ d ∈ ds[c + i]?, want t d = true := by
              intro d hd
              have hget := List.of_findIdx?_eq_some hfind
              rw [List.getElem?_drop, hd] at hget
              exact hget
            rw [pairing_cons_some hscan, List.zip_cons_cons, List.forall_mem_cons, NonePassed]
            simp only [hfind, List.drop_drop]
            exact and_congr (iff_of_true (by simpa using hwant) hfree) ih
      · -- the wide test stops at the bad offer
        have hscan : scan ok ds c t = some (c + i) := by rw [scan, htest, hi]; rfl
        rw [List.getElem?_drop] at hd
        rw [pairing_cons_some hscan, List.zip_cons_cons, List.forall_mem_cons, NonePassed]
        refine iff_of_false (fun h => ?_) fun h => hpassed h.1
        exact absurd (h.1 _ rfl d hd) (by simp [hwant])

/-- **Nothing is paired** iff no offer suits any request. -/
theorem forall_eq_none_iff :
    (∀ o ∈ pairing ok ds c ts, o = none) ↔ ∀ t ∈ ts, ∀ d ∈ ds.drop c, ok t d = false := by
  induction ts with
  | nil => simp [pairing]
  | cons t ts ih =>
      rw [List.forall_mem_cons]
      cases hscan : scan ok ds c t with
      | none =>
          have hnone : ∀ d ∈ ds.drop c, ok t d = false := by
            simpa using List.findIdx?_eq_none_iff.mp (Option.map_eq_none_iff.mp hscan)
          rw [pairing_cons_none hscan, List.forall_mem_cons, ih]
          exact and_congr_left' (iff_of_true rfl hnone)
      | some j =>
          obtain ⟨hcj, ⟨d, hd, hok⟩, -⟩ := scan_eq_some hscan
          have hmem : d ∈ ds.drop c := by
            refine List.mem_of_getElem? (i := j - c) ?_
            rw [List.getElem?_drop, Nat.add_sub_cancel' hcj, hd]
          rw [pairing_cons_some hscan]
          refine iff_of_false (fun hall => ?_) fun hall => ?_
          · exact absurd (hall _ (List.mem_cons_self ..)) (by simp)
          · exact absurd hok (by simp [hall.1 d hmem])

/-! ### The offers taken -/

/-- The offers behind the first one that passes a test. -/
def behind (q : δ → Bool) (ds : List δ) : List δ :=
  (ds.dropWhile fun d => !q d).tail

variable (ok) in
/-- The offers that the requests take, from the first offer on. -/
def taken : List δ → List τ → List (Option δ)
  | _, [] => []
  | ds, t :: ts =>
      match ds.find? (ok t) with
      | some d => some d :: taken (behind (ok t) ds) ts
      | none => none :: taken ds ts

variable (ok) in
/-- The offers that are left to later requests: those behind the last one taken. -/
def leftover : List δ → List τ → List δ
  | ds, [] => ds
  | ds, t :: ts =>
      match ds.find? (ok t) with
      | some _ => leftover (behind (ok t) ds) ts
      | none => leftover ds ts

section Taken

variable {p q : δ → Bool}

/-- The offers behind the first one that passes, by its position. -/
theorem behind_of_findIdx? {i : ℕ} (h : ds.findIdx? q = some i) :
    ds.find? q = ds[i]? ∧ behind q ds = ds.drop (i + 1) := by
  induction ds generalizing i with
  | nil => simp at h
  | cons d ds ih =>
      rw [List.findIdx?_cons] at h
      by_cases hq : q d = true
      · rw [if_pos hq] at h
        obtain rfl := Option.some.inj h
        simp [behind, hq]
      · rw [if_neg hq] at h
        obtain ⟨i, hi, rfl⟩ := Option.map_eq_some_iff.mp h
        obtain ⟨hfind, hbehind⟩ := ih hi
        rw [List.find?_cons_of_neg hq, hfind, List.drop_succ_cons, ← hbehind]
        simp [behind, hq]

/-- **The offers taken** are those at the positions of the pairing. -/
theorem taken_drop : taken ok (ds.drop c) ts = (pairing ok ds c ts).map (·.bind (ds[·]?)) := by
  induction ts generalizing c with
  | nil => rfl
  | cons t ts ih =>
      cases hfind : (ds.drop c).findIdx? (ok t) with
      | none =>
          have hscan : scan ok ds c t = none := by rw [scan, hfind]; rfl
          have hnone : (ds.drop c).find? (ok t) = none :=
            List.find?_eq_none.mpr (by simpa using List.findIdx?_eq_none_iff.mp hfind)
          simp only [taken, hnone, pairing_cons_none hscan, ih, List.map_cons, Option.bind_none]
      | some i =>
          have hscan : scan ok ds c t = some (c + i) := by rw [scan, hfind]; rfl
          obtain ⟨hget, hbehind⟩ := behind_of_findIdx? hfind
          obtain ⟨-, ⟨d, hd, -⟩, -⟩ := scan_eq_some hscan
          rw [List.getElem?_drop, hd] at hget
          simp only [taken, hget, hbehind, pairing_cons_some hscan, List.drop_drop, ih,
            List.map_cons, Option.bind_some, hd, Nat.add_assoc]

/-- There is one entry for each request. -/
theorem length_taken : (taken ok ds ts).length = ts.length := by
  induction ts generalizing ds with
  | nil => rfl
  | cons t ts ih =>
      rw [taken]
      split <;> rw [List.length_cons, List.length_cons, ih]

/-- **Requests in two parts**: the second part is served from what the first one leaves. -/
theorem taken_append (us : List τ) :
    taken ok ds (ts ++ us) = taken ok ds ts ++ taken ok (leftover ok ds ts) us := by
  induction ts generalizing ds with
  | nil => rfl
  | cons t ts ih =>
      rw [List.cons_append, taken, taken, leftover]
      cases ds.find? (ok t) <;> simp only [ih, List.cons_append]

/-- Offers that do not pass may be removed before. -/
theorem behind_filter (h : ∀ d, q d = true → p d = true) :
    behind q (ds.filter p) = (behind q ds).filter p := by
  induction ds with
  | nil => rfl
  | cons d ds ih =>
      simp only [behind] at ih ⊢
      by_cases hq : q d = true
      · rw [List.filter_cons_of_pos (h d hq)]
        simp [hq]
      · by_cases hp : p d = true
        · rw [List.filter_cons_of_pos hp]
          simp [hq, ih]
        · rw [List.filter_cons_of_neg hp, ih]
          simp [hq]

/-- **Offers that suit no request do not matter.** -/
theorem taken_filter (h : ∀ t ∈ ts, ∀ d, ok t d = true → p d = true) :
    taken ok (ds.filter p) ts = taken ok ds ts := by
  induction ts generalizing ds with
  | nil => rfl
  | cons t ts ih =>
      obtain ⟨ht, hts⟩ := List.forall_mem_cons.mp h
      have hfind : (ds.filter p).find? (ok t) = ds.find? (ok t) := by
        rw [List.find?_filter]
        refine congrArg (List.find? · ds) (funext fun d => ?_)
        cases hok : ok t d with
        | false => simp
        | true => simp [ht d hok]
      rw [taken, taken, hfind, behind_filter ht]
      cases ds.find? (ok t) <;> simp only [ih hts]

end Taken

end FirstFit
