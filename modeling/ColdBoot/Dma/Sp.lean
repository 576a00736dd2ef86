import ColdBoot.Dma.Engine
import ColdBoot.Dma.RowLength
import ColdBoot.PhysAddr

/-! # The signal processor's engine

It moves bytes between RDRAM and the 8 KB of memory inside the signal processor, data in the lower
half and instructions in the upper one. One transfer may wait behind the active one. -/

namespace ColdBoot

/-- One transfer. -/
structure SpDescriptor where
  /-- Place inside the signal processor. -/
  mem : UInt32
  /-- Place in RDRAM. -/
  dram : PhysAddr
  /-- Shape of the transfer. -/
  row : RowLength
  deriving DecidableEq

namespace Sp

/-- Physical address of the data memory. -/
def dmem : UInt32 := 0x04000000

/-- Bytes of data memory. -/
def dmemSize : UInt64 := 0x1000

/-- The bit of a place that selects instruction memory. -/
def imemSelect : UInt32 := 0x1000

/-- The engine: a queue, and no errors. -/
def engine : Engine where
  caps := { queued := true, reportsErrors := false }
  statusRegister := SpRegister.dmaBusy
  classify := .ofBusyWord
  queueRegister := some SpRegister.dmaFull

/-- A transfer of one row. -/
def linear (mem : UInt32) (dram : PhysAddr) (bytes : UInt64) : Except Fault SpDescriptor := do
  return { mem, dram, row := ← RowLength.linear bytes }

/-- The length register that starts a transfer. -/
def lengthRegister : Direction → Register :=
  Direction.lengthRegister SpRegister.readLen SpRegister.writeLen

/-- Start a transfer: both addresses, then the length. -/
def start (descriptor : SpDescriptor) (direction : Direction) : Program Unit := do
  Program.ofExcept (Requirement.check .memOnDoubleword ((← Checked.rem descriptor.mem 8) = 0))
  Program.ofExcept (Requirement.check .dramOnDoubleword (← descriptor.dram.isAligned 8))
  Program.write SpRegister.memAddr descriptor.mem
  Program.write SpRegister.dramAddr descriptor.dram.word
  let length ← Program.ofExcept descriptor.row.bits
  Program.write (lengthRegister direction) length

end Sp

end ColdBoot
