import FaultForge.Framing

/-!
# Resynchronisation

How the parser finds back to the frames on a line with noise.

* **What it throws away.** A byte that is no sync byte is garbage by itself. A length byte
  that announces too long a frame is garbage together with the sync byte before it, also
  when that length byte is a sync byte: the one pattern in which the start of a frame is
  thrown away (`keepsFrameStarts_iff`).
* **How long it waits.** A pending frame is always shorter than the buffer, so a stretch
  as long as the buffer gives an outcome, and a stretch without sync bytes leaves every
  reached parser empty (`self_stabilising`). Empty parsers go on alike, whatever stale
  bytes their buffers hold.

## Main results

* `keepsFrameStarts_iff`: garbage swallows no frame start iff no sync byte arrives in the
  place of a length byte.
* `self_stabilising`: two reached parsers agree after a stretch without sync bytes.
-/

namespace FaultForge

open Transducer

/-! ### What garbage swallows -/

/-- Resynchronisation throws away no possible frame start: the bytes consumed by a garbage
outcome hold no sync byte behind the first one. -/
def KeepsFrameStarts (bs : List UInt8) : Prop :=
  ∃ p outcomes, FrameParser.new.trace bs = some (p, outcomes) ∧
    ∀ r ∈ outcomes, r.2 = .garbage → sync ∉ r.1.tail

/-- A complete frame is never reported as garbage. -/
theorem verdict_ne_garbage (n kind : UInt8) (payload : List UInt8)
    (h : payload.length ≤ maxPayload) : verdict n kind payload h ≠ .garbage := by
  rw [verdict]
  split <;> simp

/-- Garbage holds a sync byte behind its first byte exactly when it consists of two of
them. -/
theorem sync_mem_tail_of_garbage {q : List UInt8} {b : UInt8} (hq : Aligned q)
    (h : settle (q ++ [b]) = some .garbage) :
    sync ∈ (q ++ [b]).tail ↔ q = [sync] ∧ b = sync := by
  cases hq with
  | nil => simp
  | sync => simp [eq_comm]
  | frame n rest hn hrest =>
      obtain ⟨kind, payload, hkp⟩ : ∃ kind payload, rest ++ [b] = kind :: payload :=
        List.exists_cons_of_ne_nil (by simp)
      have hlen : payload.length ≤ n.toNat := by
        have := congrArg List.length hkp
        simp at this
        omega
      rw [List.cons_append, List.cons_append, hkp] at h
      rcases Nat.lt_or_eq_of_le hlen with hlt | heq
      · rw [settle_incomplete hn hlt] at h
        exact absurd h (by simp)
      · rw [settle_frame hn heq] at h
        exact absurd (Option.some.inj h) (verdict_ne_garbage n kind payload _)

/-- **When no frame start is thrown away**: iff no sync byte arrives while the parser holds
nothing but a sync byte, in the place of the length byte. -/
theorem keepsFrameStarts_iff (bs : List UInt8) :
    KeepsFrameStarts bs ↔
      ∀ pre post p outs, bs = pre ++ sync :: post → FrameParser.new.run pre = some (p, outs) →
        p.pending ≠ [sync] := by
  have hpending : ∀ pre p outs, FrameParser.new.run pre = some (p, outs) →
      p.pending = (feeds settle [] pre).1 := by
    intro pre p outs hrun
    obtain ⟨p', hrun', hpend, -⟩ := FrameParser.push_simulates.run pre FrameParser.ready_new
    obtain ⟨rfl, -⟩ := Prod.mk.inj (Option.some.inj (hrun'.symm.trans hrun))
    exact hpend
  obtain ⟨p₀, htrace, -, -⟩ := FrameParser.push_simulates.trace bs FrameParser.ready_new
  constructor
  · rintro ⟨p', outcomes, htrace', hkeeps⟩ pre post p outs hbs hrun hsync
    obtain ⟨-, rfl⟩ := Prod.mk.inj (Option.some.inj (htrace.symm.trans htrace'))
    rw [hpending pre p outs hrun] at hsync
    have hcut : ([sync] ++ [sync], Decoded.garbage) ∈ cuts settle [] bs :=
      mem_cuts_iff.mpr ⟨pre, sync, post, hbs, by rw [hsync], by decide⟩
    exact hkeeps _ hcut rfl (by simp)
  · intro hnot
    refine ⟨p₀, _, htrace, fun r hr hgarbage hmem => ?_⟩
    obtain ⟨pre, b, post, hbs, hrun, hsettle⟩ := mem_cuts_iff.mp hr
    have haligned : Aligned (feeds settle [] pre).1 :=
      feeds_invariant Aligned.nil (fun _ _ => Aligned.append) Aligned.nil
    rw [hgarbage, hrun] at hsettle
    rw [hrun] at hmem
    obtain ⟨hsync, rfl⟩ := (sync_mem_tail_of_garbage haligned hsettle).mp hmem
    obtain ⟨p, hrun', -, -⟩ := FrameParser.push_simulates.run pre FrameParser.ready_new
    exact hnot pre post p _ hbs hrun' ((hpending pre p _ hrun').trans hsync)

/-- Of two sync bytes in a row the second, which may start a frame, is thrown away with the
first. -/
theorem double_sync_not_keepsFrameStarts : ¬ KeepsFrameStarts [0x7E, 0x7E] := by
  rintro ⟨p, outcomes, htrace, hkeeps⟩
  have hrun : (FrameParser.new.trace [0x7E, 0x7E]).map Prod.snd =
      some [([0x7E, 0x7E], .garbage)] := by decide +kernel
  rw [htrace, Option.map_some, Option.some.injEq] at hrun
  obtain rfl : outcomes = [([0x7E, 0x7E], .garbage)] := hrun
  exact hkeeps _ (List.mem_singleton_self _) rfl (by decide)

/-! ### How long the parser waits -/

/-- The states that some stream of bytes reaches. -/
def FrameParser.Reached (p : FrameParser) : Prop :=
  ∃ bs outs, FrameParser.new.run bs = some (p, outs)

namespace FrameParser

/-- A parser that some bytes lead to is ready. -/
theorem Reached.ready {p : FrameParser} (h : p.Reached) : p.Ready := by
  obtain ⟨bs, outs, hrun⟩ := h
  obtain ⟨p', outs', hrun', hready, -⟩ := run_new bs
  obtain ⟨rfl, -⟩ := Prod.mk.inj (Option.some.inj (hrun'.symm.trans hrun))
  exact hready

/-- Within a buffer's length of input a ready parser gives an outcome. -/
theorem Ready.outcome_of_run {p : FrameParser} (hp : p.Ready) {w : List UInt8}
    (hw : maxFrame ≤ w.length) :
    ∃ p' os, p.run w = some (p', os) ∧ p'.Ready ∧ ∃ o ∈ os, o.isSome = true := by
  obtain ⟨p', hrun, -, hready⟩ := push_simulates.run w hp
  exact ⟨p', _, hrun, hready, exists_outcome Aligned.nil (fun _ _ => Aligned.append)
    (fun _ h => h.length_lt) hp.aligned hw⟩

end FrameParser

/-- With nothing pending, bytes other than sync leave nothing pending. -/
theorem feeds_nil_of_no_sync {w : List UInt8} (hw : sync ∉ w) : (feeds settle [] w).1 = [] := by
  induction w with
  | nil => rfl
  | cons b w ih =>
      obtain ⟨hb, hw⟩ := not_or.mp (fun h => hw (List.mem_cons.mpr h))
      have hgarbage : settle ([] ++ [b]) = some .garbage := by simp [settle, Ne.symm hb]
      rw [feeds, feed_some hgarbage]
      exact ih hw

/-- **A stretch without sync bytes**, as long as the buffer, empties the parser. -/
theorem FrameParser.Ready.empty_of_no_sync {p : FrameParser} (hp : p.Ready) {w : List UInt8}
    (hlen : maxFrame ≤ w.length) (hw : sync ∉ w) :
    ∃ p' os, p.run w = some (p', os) ∧ p'.Ready ∧ p'.pending = [] := by
  obtain ⟨p', hrun, hpend, hready⟩ := push_simulates.run w hp
  obtain ⟨o, ho, hsome⟩ := exists_outcome Aligned.nil (fun _ _ => Aligned.append)
    (fun _ h => h.length_lt) hp.aligned hlen
  obtain ⟨pre, post, rfl, hpre⟩ := exists_empty_of_outcome ho hsome
  refine ⟨p', _, hrun, hready, ?_⟩
  rw [hpend, feeds_append, hpre]
  exact feeds_nil_of_no_sync fun h => hw (List.mem_append_right _ h)

/-- **The parser is self-stabilising.** After a stretch without sync bytes that is as long
as the buffer, any two reached parsers are empty and give the same outcomes on every
further input. And no input keeps a reached parser waiting for longer than the buffer. -/
theorem self_stabilising :
    (∀ p q : FrameParser, p.Reached → q.Reached →
      ∀ w : List UInt8, maxFrame ≤ w.length → sync ∉ w →
        ∃ p' q' os os', p.run w = some (p', os) ∧ q.run w = some (q', os') ∧
          p'.len = 0 ∧ q'.len = 0 ∧
          ∀ v, ∃ p'' q'' outs, p'.run v = some (p'', outs) ∧ q'.run v = some (q'', outs)) ∧
    (∀ p : FrameParser, p.Reached → ∀ w : List UInt8, w.length = maxFrame →
      ∃ p' os, p.run w = some (p', os) ∧ ∃ o ∈ os, o.isSome = true) := by
  refine ⟨fun p q hp hq w hlen hw => ?_, fun p hp w hlen => ?_⟩
  · obtain ⟨p', os, hrunp, hreadyp, hpendp⟩ := hp.ready.empty_of_no_sync hlen hw
    obtain ⟨q', os', hrunq, hreadyq, hpendq⟩ := hq.ready.empty_of_no_sync hlen hw
    refine ⟨p', q', os, os', hrunp, hrunq, hreadyp.len_eq_zero_iff.mpr hpendp,
      hreadyq.len_eq_zero_iff.mpr hpendq, fun v => ?_⟩
    -- the outcomes depend on what is pending only
    obtain ⟨p'', hp'', -⟩ := FrameParser.push_simulates.run v hreadyp
    obtain ⟨q'', hq'', -⟩ := FrameParser.push_simulates.run v hreadyq
    rw [hpendp] at hp''
    rw [hpendq] at hq''
    exact ⟨p'', q'', _, hp'', hq''⟩
  · obtain ⟨p', os, hrun, -, hout⟩ := hp.ready.outcome_of_run hlen.ge
    exact ⟨p', os, hrun, hout⟩

end FaultForge
