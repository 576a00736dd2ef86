import ColdBoot.Config
import ColdBoot.Log
import ColdBoot.PhysAddr

/-! # The exception vector

Every exception enters at one fixed address with room for a few instructions only, so a direct jump
to the real entry is patched in: a **`Trampoline`**, one doubleword of a jump and an empty delay
slot. A jump keeps the top four bits of the program counter, so the entry has to lie in the
vector's 256 MB.

The doubleword is written past the cache, and the instruction line at its cached alias is dropped
afterwards, so that the next fetch sees it. -/

namespace ColdBoot

/-- Physical address of the general exception vector. -/
def generalExceptionVector : UInt32 := 0x180

/-- A jump and an empty instruction, as one doubleword. -/
structure Trampoline where
  word : UInt64
  deriving DecidableEq, Repr

namespace Trampoline

/-- The operation code of a jump, in place. -/
def jumpOpcode : UInt32 := 0x08000000

/-- The bits of a jump that hold its target. -/
def targetMask : UInt32 := 0x03FFFFFF

/-- A jump to `target`. -/
def ofTarget (target : UInt32) : Trampoline :=
  ⟨(jumpOpcode ||| ((target >>> 2) &&& targetMask)).toUInt64 <<< 32⟩

/-- A jump to the code at a 64-bit pointer: only the low word counts. -/
def ofPointer (entry : UInt64) : Trampoline := ofTarget entry.toUInt32

/-- The jump instruction. -/
def instruction (trampoline : Trampoline) : UInt32 := (trampoline.word >>> 32).toUInt32

/-- The low 28 bits of the jump's target. -/
def target (trampoline : Trampoline) : UInt32 :=
  (trampoline.instruction &&& targetMask) <<< 2

end Trampoline

/-- Where a trampoline goes: the address that its doubleword is written through, and the cached one
that the processor fetches it from. -/
structure VectorSlot where
  uncached : UInt32
  cached : UInt32
  deriving DecidableEq, Repr

namespace VectorSlot

/-- The vector of all general exceptions, interrupts included. -/
def generalException : VectorSlot where
  uncached := (PhysAddr.ofAddress generalExceptionVector).uncached
  cached := (PhysAddr.ofAddress generalExceptionVector).cached

end VectorSlot

namespace Trampoline

/-- What is logged about a patched vector. -/
def installedRecord (trampoline : Trampoline) : LogRecord where
  level := .debug
  target := "n64rt::interrupt::trampoline"
  pieces := "exception vector -> " :: Numeral.hexPieces 10 trampoline.target

/-- Patch the vector and drop its stale instruction line. Interrupts have to be masked. -/
def install (config : Config) (trampoline : Trampoline) (slot : VectorSlot) : Program Unit := do
  Program.perform (.storeDoubleword slot.uncached trampoline.word)
  Program.perform (.cache .invalidateInstruction slot.cached)
  trampoline.installedRecord.emit config.logFilter

end Trampoline

end ColdBoot
