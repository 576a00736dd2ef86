import ColdBoot.Fault

/-! # The exception frame

What the low-level exception entry puts on the stack before it calls the handler: four words of
argument space, then one doubleword for each register that a call may change, then the two halves
of the multiplier. Registers are 64 bits wide, so every slot is a doubleword. -/

namespace ColdBoot.ExceptionFrame

/-- Registers saved in order: the assembler's temporary, results, arguments, temporaries, and the
return address. -/
def savedRegisters : UInt64 := 18

/-- Bytes in a slot. -/
def slotSize : UInt64 := 8

/-- Bytes of argument space. -/
def argumentSpace : UInt64 := 16

/-- Place of the saved registers. -/
def registerOffset : UInt64 := argumentSpace

/-- Place of the multiplier's high half. -/
def hiOffset : UInt64 := registerOffset + savedRegisters * slotSize

/-- Place of the multiplier's low half. -/
def loOffset : UInt64 := hiOffset + slotSize

/-- Bytes in a frame. -/
def size : UInt64 := loOffset + slotSize

/-- Place of saved register `index`. -/
def registerSlot (index : UInt64) : Except Fault UInt64 := do
  Checked.addSize registerOffset (← Checked.mulSize index slotSize)

end ColdBoot.ExceptionFrame
