import FaultForge.Lib.WriteLog

/-!
# The Stack Canary

Two checks of the firmware are to notice that the stack has grown over a word in memory.
`canary::check` reads the word that was written at boot, and so tells whether the last
write to it since then has left the value (`Canary.check_iff`). The health check writes the
word itself and reads it back at once: it is ready whatever was there
(`checkStackCanary_eq`), and a run in which the word is overwritten between two checks and
the second one notices does not exist (`detects_iff`).

## Main results

* `Canary.check_iff`: what the check of the boot canary says.
* `detects_iff`: when the health check does what is asked of it.
-/

namespace FaultForge

open WriteLog

/-! ### The checks -/

/-- What a health check can find wrong. -/
inductive HealthError where
  | stackCanary
  | ramTest
  | timerNotTicking
  | clockOutOfRange
  | clockHclkNotRunning
deriving DecidableEq, Repr

/-- The result of a health check. -/
inductive HealthStatus where
  | ready
  | fail (e : HealthError)
deriving DecidableEq, Repr

/-- The words of the memory, by their addresses. -/
abbrev Memory := UInt32 → UInt32

/-- The value that the check writes below the stack. -/
def canaryVal : UInt32 := 0xDEADBEEF

/-- The word 4 KB below the top of the stack. For a top below that the subtraction wraps, as
in a release build. -/
def canaryAddr (stackTop : UInt32) : UInt32 := stackTop - 4096

/-- `check_stack_canary`, where the linker puts `_stack_start` at `stackTop`. -/
def checkStackCanary (stackTop : UInt32) (mem : Memory) : HealthStatus × Memory :=
  if stackTop = 0 then (.fail .stackCanary, mem)
  else
    let mem := Function.update mem (canaryAddr stackTop) canaryVal
    let read := mem (canaryAddr stackTop)
    if read ≠ canaryVal then (.fail .stackCanary, mem) else (.ready, mem)

/-- The result of the self-test. -/
inductive BistResult (Report : Type*) where
  | pass
  | fail (e : HealthError)
  | faultStability (report : Report)

/-- The first step of the self-test `run`; `rest` are the other checks. -/
def bistRun {Report : Type*} (stackTop : UInt32)
    (rest : Memory → BistResult Report × Memory) (mem : Memory) : BistResult Report × Memory :=
  let canary := checkStackCanary stackTop mem
  if canary.1 ≠ .ready then (.fail .stackCanary, canary.2) else rest canary.2

namespace Canary

/-- The value of the boot canary. -/
def canaryValue : UInt32 := 0xDEADBEEF

/-- The word of the boot canary. -/
def canaryAddr : UInt32 := 0x20017FFC

/-- `init`: put the value in its place. -/
def init (mem : Memory) : Memory :=
  Function.update mem canaryAddr canaryValue

/-- `check`: whether the value is still there. -/
def check (mem : Memory) : Bool :=
  mem canaryAddr = canaryValue

/-- **What the check of the boot canary says**: the last write to the word, if any, was one
of its value. -/
theorem check_iff (mem : Memory) (writes : List (UInt32 × UInt32)) :
    check (replay writes (init mem)) = true ↔
      ∀ v, lastWrite canaryAddr writes = some v → v = canaryValue := by
  have hinit : init mem canaryAddr = canaryValue := Function.update_self ..
  rw [check, decide_eq_true_iff]
  exact replay_apply_eq_iff hinit

end Canary

/-! ### Runs -/

/-- What happens to the memory: a health check, or a write by the rest of the firmware. -/
inductive MemEvent where
  | check
  | write (w : UInt32 × UInt32)
deriving DecidableEq, Repr

/-- What an event does to the memory. -/
def MemEvent.apply (stackTop : UInt32) (mem : Memory) : MemEvent → Memory
  | .check => (checkStackCanary stackTop mem).2
  | .write w => Function.update mem w.1 w.2

/-- The memory after the events. -/
def memAfter (stackTop : UInt32) (mem : Memory) (events : List MemEvent) : Memory :=
  events.foldl (MemEvent.apply stackTop) mem

/-- Two calls of the health check, with some writes between them. -/
def Consecutive (events before : List MemEvent) (writes : List (UInt32 × UInt32)) : Prop :=
  ∃ after, events = before ++ .check :: (writes.map .write ++ .check :: after)

/-- **What is asked of the health check**: when the word has been overwritten since a call
and holds another value, the next call fails. -/
def Detects (stackTop : UInt32) (mem : Memory) (events : List MemEvent) : Prop :=
  ∀ before writes, Consecutive events before writes →
    let found := memAfter stackTop mem (before ++ .check :: writes.map .write)
    found (canaryAddr stackTop) ≠ canaryVal →
      (checkStackCanary stackTop found).1 = .fail .stackCanary

/-- Between any two calls, the last write to the word leaves its value. -/
def Intact (stackTop : UInt32) (events : List MemEvent) : Prop :=
  ∀ before writes, Consecutive events before writes →
    ∀ v, lastWrite (canaryAddr stackTop) writes = some v → v = canaryVal

variable {stackTop : UInt32}

/-- **The health check is ready on every memory**: it reads back its own write. -/
theorem checkStackCanary_eq (h : stackTop ≠ 0) (mem : Memory) :
    checkStackCanary stackTop mem =
      (.ready, Function.update mem (canaryAddr stackTop) canaryVal) := by
  simp [checkStackCanary, h]

/-- The self-test goes on to the other checks, whatever has happened to the stack. -/
theorem bistRun_eq {Report : Type*} (h : stackTop ≠ 0)
    (rest : Memory → BistResult Report × Memory) (mem : Memory) :
    bistRun stackTop rest mem = rest (Function.update mem (canaryAddr stackTop) canaryVal) := by
  rw [bistRun, checkStackCanary_eq h]
  rfl

/-- Events in two parts. -/
theorem memAfter_append (mem : Memory) (events events' : List MemEvent) :
    memAfter stackTop mem (events ++ events') =
      memAfter stackTop (memAfter stackTop mem events) events' :=
  List.foldl_append

/-- Between two checks the memory is changed by the writes alone. -/
theorem memAfter_writes (mem : Memory) (writes : List (UInt32 × UInt32)) :
    memAfter stackTop mem (writes.map .write) = replay writes mem := by
  rw [memAfter, List.foldl_map]
  rfl

/-- After a call and some writes, the word is intact iff the last write to it left it so. -/
theorem memAfter_canary_iff (h : stackTop ≠ 0) (mem : Memory) (before : List MemEvent)
    (writes : List (UInt32 × UInt32)) :
    memAfter stackTop mem (before ++ .check :: writes.map .write) (canaryAddr stackTop) =
        canaryVal ↔
      ∀ v, lastWrite (canaryAddr stackTop) writes = some v → v = canaryVal := by
  have hcall : ∀ m, memAfter stackTop m [.check] =
      Function.update m (canaryAddr stackTop) canaryVal := by
    intro m
    exact congrArg Prod.snd (checkStackCanary_eq h m)
  rw [← List.singleton_append, memAfter_append, memAfter_append, hcall, memAfter_writes]
  exact replay_apply_eq_iff (Function.update_self ..)

/-- **When the health check does what is asked of it**: iff there is nothing to notice. -/
theorem detects_iff (h : stackTop ≠ 0) (mem : Memory) (events : List MemEvent) :
    Detects stackTop mem events ↔ Intact stackTop events := by
  have hready : ∀ m, (checkStackCanary stackTop m).1 ≠ .fail .stackCanary := by
    intro m
    rw [checkStackCanary_eq h]
    exact nofun
  constructor
  · intro hdetects before writes hcons
    rw [← memAfter_canary_iff h mem before]
    by_contra hfound
    exact hready _ (hdetects before writes hcons hfound)
  · intro hintact before writes hcons found hfound
    exact absurd ((memAfter_canary_iff h mem before writes).mpr (hintact before writes hcons))
      hfound

/-- Writes elsewhere leave a run intact. -/
theorem intact_of_forall_ne {events : List MemEvent}
    (h : ∀ w, MemEvent.write w ∈ events → w.1 ≠ canaryAddr stackTop) :
    Intact stackTop events := by
  rintro before writes ⟨after, rfl⟩ v hv
  have hnone : lastWrite (canaryAddr stackTop) writes = none :=
    lastWrite_eq_none fun w hw => h w (by simp [hw])
  rw [hnone] at hv
  exact absurd hv nofun

/-- A write next to the word. -/
theorem neighbour_write_detects :
    Detects 0x20018000 (fun _ => 0) [.check, .write (0x20017004, 7), .check] :=
  (detects_iff (by decide) _ _).mpr (intact_of_forall_ne (by simp [canaryAddr]))

/-- A stack that has grown over the word. -/
theorem overwrite_undetected :
    ¬ ∀ stackTop mem events, stackTop ≠ 0 → Detects stackTop mem events := by
  intro h
  have hdetects := h 0x20018000 (fun _ => 0) [.check, .write (0x20017000, 0), .check] (by decide)
  have hfail := hdetects [] [(0x20017000, 0)] ⟨[], rfl⟩ (by decide)
  rw [checkStackCanary_eq (by decide)] at hfail
  exact absurd hfail nofun

end FaultForge
