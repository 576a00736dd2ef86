import ColdBoot.BitField

/-! # The processor's cause word

Why an exception was taken: a code in bits 2 to 6, and the pending interrupt lines in bits 8 to 15.
All devices of the signal processor share line 2; its interrupt controller knows which one it was. -/

namespace ColdBoot

/-- The cause register. -/
structure Cause where
  word : UInt32
  deriving DecidableEq, Repr

namespace Cause

/-- The exception code of an interrupt. -/
def interruptCode : UInt32 := 0

/-- The pending interrupt lines. -/
def pending (cause : Cause) : UInt8 := (BitField.get ⟨8, 8⟩ cause.word).toUInt8

/-- The exception code. -/
def exceptionCode (cause : Cause) : UInt32 := BitField.get ⟨2, 5⟩ cause.word

/-- The exception is an interrupt. -/
def isInterrupt (cause : Cause) : Bool := cause.exceptionCode = interruptCode

/-- Line 2 is raised: some device of the signal processor asks for service. -/
def deviceLineRaised (cause : Cause) : Bool := testBit cause.word 10

end Cause

end ColdBoot
