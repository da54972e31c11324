import FaultForge.Lib.PatternTest
import FaultForge.StackCanary

/-!
# The Self-Test

`bist::run` makes four checks one after the other: the stack canary, a pattern test of a part of
the RAM, the clocks, and the stability of the fault injectors. The first one that fails decides
the code that the host can read (`self_test_code`).

The memory is one with defects (`PatternTest.Defects`), and the RAM check finds out of it no more
than a test of a single pattern can: whether each of the tested cells keeps that pattern
(`check_ram_iff`). A decoder that selects one cell for many addresses goes unnoticed, and so does
a cell that keeps the pattern and nothing else. On an intact memory the check is destructive: if
the tested words include the one of the boot canary, the self-test itself corrupts it
(`boot_canary_survives_iff`).

The crate of the injectors is not part of the repository, so what they do is a parameter.

## Main results

* `check_ram_iff`: what the RAM check finds out.
* `self_test_code`: the code of the self-test.
* `boot_canary_survives_iff`: when the boot canary survives the self-test.
-/

namespace FaultForge

open PatternTest WriteLog

/-! ### The RAM check -/

/-- The pattern of the RAM test. -/
def ramPattern : UInt32 := 0xFEEDFACE

/-- The words between `_sram_test_start` and `_sram_test_end`. -/
def ramWords (testStart testEnd : UInt32) : ℕ :=
  ((testEnd - testStart) / 4).toNat

/-- Their addresses, `base.add(i)`. -/
def ramAddrs (testStart testEnd : UInt32) : List UInt32 :=
  (List.range (ramWords testStart testEnd)).map fun i => testStart + 4 * UInt32.ofNat i

section Defective

variable {γ : Type*} (ram : Defects UInt32 UInt32 γ)

/-- The second loop of `check_ram`. -/
def readBack (mem : γ → UInt32) : List UInt32 → HealthStatus
  | [] => .ready
  | a :: addrs => if ram.read mem a ≠ ramPattern then .fail .ramTest else readBack mem addrs

/-- The second loop comes to its end iff all words hold the pattern. -/
theorem readBack_eq (mem : γ → UInt32) (addrs : List UInt32) :
    readBack ram mem addrs =
      if addrs.all (fun a => ram.read mem a = ramPattern) then .ready else .fail .ramTest := by
  induction addrs with
  | nil => rfl
  | cons a addrs ih =>
      rw [readBack, ih]
      by_cases ha : ram.read mem a = ramPattern <;> simp [ha]

variable [DecidableEq γ]

/-- `check_ram`: the pattern is written to all words, then all are read back. -/
def checkRam (testStart testEnd : UInt32) (mem : γ → UInt32) : HealthStatus × (γ → UInt32) :=
  if ramWords testStart testEnd = 0 then (.ready, mem)
  else
    let mem := ram.fill (ramAddrs testStart testEnd) ramPattern mem
    (readBack ram mem (ramAddrs testStart testEnd), mem)

/-- The cells that the RAM check reaches keep its pattern. -/
def KeepsPattern (testStart testEnd : UInt32) : Prop :=
  ∀ a ∈ ramAddrs testStart testEnd, ram.keep (ram.decode a) ramPattern = ramPattern

instance (testStart testEnd : UInt32) : Decidable (KeepsPattern ram testStart testEnd) :=
  List.decidableBAll _ _

variable {ram}

/-- An empty range has no words. -/
theorem ramAddrs_eq_nil {testStart testEnd : UInt32} (h : ramWords testStart testEnd = 0) :
    ramAddrs testStart testEnd = [] := by
  rw [ramAddrs, h]
  rfl

/-- The RAM check, in closed form. -/
theorem checkRam_eq (testStart testEnd : UInt32) (mem : γ → UInt32) :
    checkRam ram testStart testEnd mem =
      (if KeepsPattern ram testStart testEnd then .ready else .fail .ramTest,
        ram.fill (ramAddrs testStart testEnd) ramPattern mem) := by
  rw [checkRam]
  split
  · next hzero => simp [KeepsPattern, ramAddrs_eq_nil hzero, Defects.fill]
  · have hkeeps : ((ramAddrs testStart testEnd).all fun a =>
          ram.read (ram.fill (ramAddrs testStart testEnd) ramPattern mem) a = ramPattern) = true ↔
        KeepsPattern ram testStart testEnd := by
      simp only [List.all_eq_true, decide_eq_true_eq, ram.forall_read_fill_iff, KeepsPattern]
    simp only [readBack_eq, hkeeps]

variable (ram)

/-- **What the RAM check finds out.** On every memory, whatever its decoder selects and its
cells keep, and whatever it holds: the check is ready iff each of the cells that it reaches keeps
the one pattern that it writes. So two memories that differ in their decoders only, one of them
with a single cell for all addresses, are both ready if their cells keep everything. It leaves
the pattern in all cells that it reaches, and the other cells alone. -/
theorem check_ram_iff (testStart testEnd : UInt32) (mem : γ → UInt32) :
    ((checkRam ram testStart testEnd mem).1 = .ready ↔
      ∀ i < ramWords testStart testEnd,
        ram.keep (ram.decode (testStart + 4 * UInt32.ofNat i)) ramPattern = ramPattern) ∧
    ((∀ c b, ram.keep c b = b) → ∀ decode : UInt32 → γ,
      (checkRam { ram with decode } testStart testEnd mem).1 = .ready) ∧
    ∀ c, (checkRam ram testStart testEnd mem).2 c =
      if ∃ i < ramWords testStart testEnd, ram.decode (testStart + 4 * UInt32.ofNat i) = c then
        ram.keep c ramPattern
      else mem c := by
  have hready : ∀ ram : Defects UInt32 UInt32 γ,
      (checkRam ram testStart testEnd mem).1 = .ready ↔ KeepsPattern ram testStart testEnd := by
    intro ram
    rw [checkRam_eq]
    by_cases h : KeepsPattern ram testStart testEnd <;> simp [h]
  refine ⟨?_, fun hkeep decode => ?_, fun c => ?_⟩
  · rw [hready, KeepsPattern, ramAddrs]
    simp
  · rw [hready]
    exact fun a _ => hkeep _ _
  · rw [checkRam_eq]
    simp only [ram.fill_apply]
    simp [ramAddrs]

/-! ### The canary and the clocks -/

/-- `check_stack_canary` on a memory with defects. -/
def checkStackCanaryOn (stackTop : UInt32) (mem : γ → UInt32) : HealthStatus × (γ → UInt32) :=
  if stackTop = 0 then (.fail .stackCanary, mem)
  else
    let mem := ram.write mem (canaryAddr stackTop) canaryVal
    if ram.read mem (canaryAddr stackTop) ≠ canaryVal then (.fail .stackCanary, mem)
    else (.ready, mem)

/-- On an intact memory it is the check of `FaultForge.StackCanary`. -/
theorem checkStackCanaryOn_intact (stackTop : UInt32) (mem : Memory) :
    checkStackCanaryOn .intact stackTop mem = checkStackCanary stackTop mem := rfl

/-- There is a stack, and the cell of the canary keeps its value. -/
def KeepsCanary (stackTop : UInt32) : Prop :=
  stackTop ≠ 0 ∧
    ram.keep (ram.decode (canaryAddr stackTop)) canaryVal = canaryVal

instance (stackTop : UInt32) : Decidable (KeepsCanary ram stackTop) :=
  inferInstanceAs (Decidable (_ ∧ _))

/-- The check fails iff there is no stack or the cell does not keep the value, and it always
writes the value first if there is a stack. -/
theorem checkStackCanaryOn_eq (stackTop : UInt32) (mem : γ → UInt32) :
    checkStackCanaryOn ram stackTop mem =
      (if KeepsCanary ram stackTop then .ready else .fail .stackCanary,
        if stackTop = 0 then mem else ram.write mem (canaryAddr stackTop) canaryVal) := by
  rw [checkStackCanaryOn]
  by_cases hzero : stackTop = 0
  · simp [hzero, KeepsCanary]
  · by_cases hkeep : ram.keep (ram.decode (canaryAddr stackTop)) canaryVal = canaryVal <;>
      simp [hzero, hkeep, KeepsCanary, ram.read_write]

end Defective

/-- The frequencies that `rcc::clocks` reports, in Hz, of clocks that run. -/
structure Clocks where
  sys : Option UInt32
  pclk1Tim : Option UInt32
  hclk1 : Option UInt32

/-- `check_clock`: the first clock that does not run decides. -/
def checkClock (clocks : Clocks) : HealthStatus :=
  if clocks.sys.getD 0 = 0 then .fail .clockOutOfRange
  else if clocks.pclk1Tim.getD 0 = 0 then .fail .timerNotTicking
  else if clocks.hclk1.getD 0 = 0 then .fail .clockHclkNotRunning
  else .ready

/-! ### The stability of the injectors -/

/-- How many checks of the injectors have passed and failed. -/
structure StabilityReport where
  passed : UInt32
  failed : UInt32
deriving DecidableEq, Repr

namespace StabilityReport

/-- Whether all have passed. -/
def ok (r : StabilityReport) : Bool :=
  r.failed = 0

/-- `report_passed`, without its messages. -/
def count (r : StabilityReport) (ok : Bool) : StabilityReport :=
  if ok then { r with passed := r.passed + 1 } else { r with failed := r.failed + 1 }

end StabilityReport

/-- The state of an SPI bus. -/
structure SpiBus where
  sck : Bool
  mosi : UInt8
  miso : UInt8
  cs : Bool

/-- The state of an I²C bus. -/
structure I2cBus where
  sda : Bool
  scl : Bool
  address : UInt8
  data : UInt8

/-- The state of a UART. -/
structure UartBus where
  tx : UInt8
  rx : UInt8

/-- What an injector, configured and armed as the check does it, makes of a bus when it is fired:
the result, the count of its injections, and the bus. -/
structure Injectors (R : Type*) where
  fired : R
  spi : SpiBus → R × UInt32 × SpiBus
  i2c : I2cBus → R × UInt32 × I2cBus
  uart : UartBus → R × UInt32 × UartBus

section Stability

variable {R : Type*} [DecidableEq R] (inj : Injectors R)

/-- SPI: BitFlip at bit 0 on MOSI. -/
def spiOk : Bool :=
  let r := inj.spi { sck := true, mosi := 0xA5, miso := 0x5A, cs := true }
  r.1 = inj.fired && r.2.1 = 1 && r.2.2.mosi = 0xA5 ^^^ 0x01

/-- I2C: StuckAtZero on bit 3 of the data byte. -/
def i2cOk : Bool :=
  let r := inj.i2c { sda := true, scl := true, address := 0x50, data := 0xFF }
  r.1 = inj.fired && r.2.1 = 1 && r.2.2.data = 0xFF &&& ~~~0x08

/-- UART: BitFlip on bit 7 of TX. -/
def uartOk : Bool :=
  let r := inj.uart { tx := 0x00, rx := 0x55 }
  r.1 = inj.fired && r.2.1 = 1 && r.2.2.tx = 0x00 ^^^ 0x80

/-- The injectors have just been armed, so the branches for those that are not never run. -/
def stabilityCheck : StabilityReport :=
  (((⟨0, 0⟩ : StabilityReport).count (spiOk inj)).count (i2cOk inj)).count (uartOk inj)

/-- The check counts three injectors, and is passed iff none of them fails. -/
theorem stabilityCheck_spec :
    (stabilityCheck inj).passed + (stabilityCheck inj).failed = 3 ∧
      (stabilityCheck inj).ok = (spiOk inj && i2cOk inj && uartOk inj) := by
  rw [stabilityCheck]
  cases spiOk inj <;> cases i2cOk inj <;> cases uartOk inj <;> decide

end Stability

/-! ### The whole self-test -/

/-- The code that the host reads. -/
def HealthError.code : HealthError → UInt8
  | .stackCanary => 0x01
  | .ramTest => 0x02
  | .timerNotTicking => 0x03
  | .clockOutOfRange => 0x04
  | .clockHclkNotRunning => 0x05

/-- Single byte wire encoding for the host. -/
def BistResult.code : BistResult StabilityReport → UInt8
  | .pass => 0x00
  | .fail e => e.code
  | .faultStability r => if r.ok then 0x10 else 0x11

section Run

variable {γ R : Type*} [DecidableEq γ] [DecidableEq R] (ram : Defects UInt32 UInt32 γ)
  (stackTop testStart testEnd : UInt32) (clocks : Clocks) (inj : Injectors R)

/-- The checks behind that of the canary. -/
def otherChecks (mem : γ → UInt32) : BistResult StabilityReport × (γ → UInt32) :=
  let r := checkRam ram testStart testEnd mem
  match r.1 with
  | .fail e => (.fail e, r.2)
  | .ready =>
      match checkClock clocks with
      | .fail e => (.fail e, r.2)
      | .ready =>
          let stability := stabilityCheck inj
          if ¬ stability.ok then (.faultStability stability, r.2) else (.pass, r.2)

/-- `run`, on a memory with defects. -/
def selfTest (mem : γ → UInt32) : BistResult StabilityReport × (γ → UInt32) :=
  let canary := checkStackCanaryOn ram stackTop mem
  if canary.1 ≠ .ready then (.fail .stackCanary, canary.2)
  else otherChecks ram testStart testEnd clocks inj canary.2

/-- On an intact memory, the first step of the self-test is the one that is modelled there. -/
theorem selfTest_intact (mem : Memory) :
    selfTest .intact stackTop testStart testEnd clocks inj mem =
      bistRun stackTop (otherChecks .intact testStart testEnd clocks inj) mem := rfl

/-- The checks behind that of the canary, in closed form. -/
theorem otherChecks_eq (mem : γ → UInt32) :
    otherChecks ram testStart testEnd clocks inj mem =
      (if KeepsPattern ram testStart testEnd then
        match checkClock clocks with
        | .fail e => .fail e
        | .ready =>
            if ¬ (stabilityCheck inj).ok then .faultStability (stabilityCheck inj) else .pass
      else .fail .ramTest,
      ram.fill (ramAddrs testStart testEnd) ramPattern mem) := by
  rw [otherChecks, checkRam_eq]
  by_cases hram : KeepsPattern ram testStart testEnd
  · rw [if_pos hram, if_pos hram]
    cases checkClock clocks with
    | fail e => rfl
    | ready => exact (apply_ite (fun r => (r, _)) _ _ _).symm
  · rw [if_neg hram, if_neg hram]

/-- Their code, and whether they are passed. -/
theorem otherChecks_code (mem : γ → UInt32) :
    (otherChecks ram testStart testEnd clocks inj mem).1.code =
        (if ¬ KeepsPattern ram testStart testEnd then 0x02
        else if clocks.sys.getD 0 = 0 then 0x04
        else if clocks.pclk1Tim.getD 0 = 0 then 0x03
        else if clocks.hclk1.getD 0 = 0 then 0x05
        else if spiOk inj && i2cOk inj && uartOk inj then 0x00
        else 0x11) ∧
      ((otherChecks ram testStart testEnd clocks inj mem).1 = .pass ↔
        (otherChecks ram testStart testEnd clocks inj mem).1.code = 0) := by
  obtain ⟨-, hok⟩ := stabilityCheck_spec inj
  rw [otherChecks_eq, ← hok, checkClock]
  generalize stabilityCheck inj = stability
  by_cases hram : KeepsPattern ram testStart testEnd
  · rw [if_pos hram, if_neg (not_not_intro hram)]
    dsimp only
    by_cases hsys : clocks.sys.getD 0 = 0
    · simp [hsys, BistResult.code, HealthError.code]
    · by_cases htim : clocks.pclk1Tim.getD 0 = 0
      · simp [hsys, htim, BistResult.code, HealthError.code]
      · by_cases hclk : clocks.hclk1.getD 0 = 0
        · simp [hsys, htim, hclk, BistResult.code, HealthError.code]
        · by_cases hstable : stability.ok = true
          · simp [hsys, htim, hclk, hstable, BistResult.code]
          · simp [hsys, htim, hclk, hstable, BistResult.code]
  · rw [if_neg hram, if_pos hram]
    simp [BistResult.code, HealthError.code]

/-- **The code of the self-test.** On every memory, with any clocks and any injectors, the code
that the host can read names the first of the checks that fails, in the order canary, RAM, system
clock, timer clock, bus clock, injectors; it is zero iff the self-test is passed, and the code
0x10 for passed injectors is never sent. -/
theorem self_test_code (mem : γ → UInt32) :
    (selfTest ram stackTop testStart testEnd clocks inj mem).1.code =
        (if ¬ KeepsCanary ram stackTop then 0x01
        else if ¬ KeepsPattern ram testStart testEnd then 0x02
        else if clocks.sys.getD 0 = 0 then 0x04
        else if clocks.pclk1Tim.getD 0 = 0 then 0x03
        else if clocks.hclk1.getD 0 = 0 then 0x05
        else if spiOk inj && i2cOk inj && uartOk inj then 0x00
        else 0x11) ∧
      ((selfTest ram stackTop testStart testEnd clocks inj mem).1 = .pass ↔
        (selfTest ram stackTop testStart testEnd clocks inj mem).1.code = 0) ∧
      (selfTest ram stackTop testStart testEnd clocks inj mem).1.code ≠ 0x10 := by
  obtain ⟨hcode, hpass⟩ := otherChecks_code ram testStart testEnd clocks inj
    (if stackTop = 0 then mem else ram.write mem (canaryAddr stackTop) canaryVal)
  have hfirst : (selfTest ram stackTop testStart testEnd clocks inj mem).1 =
      if KeepsCanary ram stackTop then
        (otherChecks ram testStart testEnd clocks inj
          (if stackTop = 0 then mem else ram.write mem (canaryAddr stackTop) canaryVal)).1
      else .fail .stackCanary := by
    rw [selfTest, checkStackCanaryOn_eq]
    by_cases hcanary : KeepsCanary ram stackTop
    · rw [if_pos hcanary, if_pos hcanary]
      rfl
    · rw [if_neg hcanary, if_neg hcanary]
      rfl
  rw [hfirst]
  by_cases hcanary : KeepsCanary ram stackTop
  · rw [if_pos hcanary, if_neg (not_not_intro hcanary)]
    refine ⟨hcode, hpass, ?_⟩
    rw [hcode]
    split_ifs <;> decide
  · rw [if_neg hcanary, if_pos hcanary]
    simp [BistResult.code, HealthError.code]

end Run

/-! ### The boot canary -/

/-- What the self-test does to an intact memory. -/
theorem selfTest_memory {R : Type*} [DecidableEq R] (inj : Injectors R) {stackTop : UInt32}
    (hstack : stackTop ≠ 0) (testStart testEnd : UInt32) (clocks : Clocks) (mem : Memory)
    (a : UInt32) :
    (selfTest .intact stackTop testStart testEnd clocks inj mem).2 a =
      if a ∈ ramAddrs testStart testEnd then ramPattern
      else Function.update mem (canaryAddr stackTop) canaryVal a := by
  rw [selfTest_intact, bistRun_eq hstack, otherChecks_eq]
  refine (Defects.fill_apply ..).trans ?_
  simp [Defects.intact]

/-- **When the boot canary survives the self-test.** On an intact memory in which the boot canary
is in place, for a stack that does not begin at address zero, it is so after the self-test,
whether that is passed or not, iff its word is none of those that the RAM check tests. -/
theorem boot_canary_survives_iff {R : Type*} [DecidableEq R] (inj : Injectors R)
    {stackTop : UInt32} (hstack : stackTop ≠ 0) (testStart testEnd : UInt32) (clocks : Clocks)
    {mem : Memory} (hboot : Canary.check mem = true) :
    Canary.check (selfTest .intact stackTop testStart testEnd clocks inj mem).2 = true ↔
      ∀ i < ramWords testStart testEnd, testStart + 4 * UInt32.ofNat i ≠ Canary.canaryAddr := by
  rw [Canary.check, decide_eq_true_iff] at hboot ⊢
  have hword : Function.update mem (canaryAddr stackTop) canaryVal Canary.canaryAddr =
      Canary.canaryValue := by
    by_cases hsame : Canary.canaryAddr = canaryAddr stackTop
    · rw [hsame, Function.update_self]
      rfl
    · rw [Function.update_of_ne hsame, hboot]
  have hmem : Canary.canaryAddr ∈ ramAddrs testStart testEnd ↔
      ∃ i < ramWords testStart testEnd, testStart + 4 * UInt32.ofNat i = Canary.canaryAddr := by
    simp [ramAddrs]
  rw [selfTest_memory inj hstack, hword]
  by_cases h : Canary.canaryAddr ∈ ramAddrs testStart testEnd
  · rw [if_pos h]
    refine iff_of_false (by decide) fun hnone => ?_
    obtain ⟨i, hi, heq⟩ := hmem.mp h
    exact hnone i hi heq
  · rw [if_neg h]
    refine iff_of_true rfl fun i hi heq => h (hmem.mpr ⟨i, hi, heq⟩)

/-- Injectors that do what they are configured for. -/
def stableInjectors : Injectors Bool where
  fired := true
  spi bus := (true, 1, { bus with mosi := bus.mosi ^^^ 0x01 })
  i2c bus := (true, 1, { bus with data := bus.data &&& ~~~0x08 })
  uart bus := (true, 1, { bus with tx := bus.tx ^^^ 0x80 })

/-- A test of the last words of the RAM reaches the boot canary. -/
theorem boot_canary_lost :
    Canary.check (selfTest .intact 0x20018000 0x20017FF0 0x20018000
      ⟨some 84000000, some 84000000, some 84000000⟩ stableInjectors
      (Canary.init fun _ => 0)).2 = true ↔
    ∀ i < ramWords 0x20017FF0 0x20018000,
      0x20017FF0 + 4 * UInt32.ofNat i ≠ Canary.canaryAddr :=
  boot_canary_survives_iff _ (by decide) _ _ _ (by decide)

end FaultForge
