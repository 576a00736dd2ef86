import ColdBoot.Program
import ColdBoot.Cpu.Status
import ColdBoot.Cpu.Cause
import ColdBoot.Cpu.CacheLines

/-! # Control of the processor

Changing the status word, cache maintenance over ranges, and stopping for good. -/

namespace ColdBoot.Cpu

/-! ### Status -/

/-- Change the status word, which is read first, and give back its new value. -/
def modifyStatus (change : Flags → Flags) : Program Flags := do
  let status ← Program.perform .getStatus
  Program.perform (.setStatus (change status))
  return change status

/-- Mask interrupts, and tell whether they were on. -/
def disableInterrupts : Program Bool := do
  let status ← Program.perform .getStatus
  Program.perform (.setStatus (status.without CpuStatus.ie))
  return status.contains CpuStatus.ie

/-- Let interrupts through. -/
def enableInterrupts : Program Unit := do
  let _ ← modifyStatus (·.union CpuStatus.ie)

/-- The cause of the last exception. -/
def cause : Program Cause := return ⟨← Program.perform .getCause⟩

/-! ### Caches -/

/-- Act on the lines of a walk from visit `n` on, `left` visits at most. -/
def visitLines (operation : CacheOperation) (walk : CacheLines) : Nat → UInt32 → Program Unit
  | 0, _ => .done ()
  | left + 1, n =>
      match walk.visit n with
      | .error fault => .stop (.fault fault)
      | .ok none => .done ()
      | .ok (some address) =>
          .step (.cache operation address) fun _ => visitLines operation walk left (n + 1)

/-- Act on every line of a range, in the order of the walk. -/
def cacheRange (operation : CacheOperation) (vaddr len line : UInt32) : Program Unit := do
  let walk ← Program.ofExcept (CacheLines.ofRange vaddr len line)
  visitLines operation walk CacheLines.maxVisits 0

/-- Write the dirty data lines of a range to RDRAM. -/
def writeBackRange (vaddr len : UInt32) : Program Unit :=
  cacheRange .writeBackData vaddr len dataCacheLine

/-- Drop the data lines of a range. -/
def invalidateDataRange (vaddr len : UInt32) : Program Unit :=
  cacheRange .invalidateData vaddr len dataCacheLine

/-- Drop the instruction lines of a range. -/
def invalidateInstructionRange (vaddr len : UInt32) : Program Unit :=
  cacheRange .invalidateInstruction vaddr len instructionCacheLine

/-! ### Stopping -/

/-- Stop for good: interrupts are masked first, so nothing can resume the processor. -/
def halt {α : Type} : Program α := do
  let _ ← disableInterrupts
  .stop .halted

end ColdBoot.Cpu
