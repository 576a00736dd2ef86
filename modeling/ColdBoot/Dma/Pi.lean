import ColdBoot.Dma.Engine
import ColdBoot.PhysAddr

/-! # The cartridge engine

It moves bytes between RDRAM and the cartridge bus, one transfer at a time, and can report an
input/output error. -/

namespace ColdBoot

/-- One transfer. -/
structure PiDescriptor where
  /-- Place in RDRAM. -/
  dram : PhysAddr
  /-- Place on the cartridge bus. -/
  cart : PhysAddr
  /-- Bytes to move. -/
  len : UInt32
  deriving DecidableEq

namespace Pi

/-- Start of the cartridge on its bus. -/
def cartridgeRom : UInt32 := 0x10000000

/-- The status write that aborts the engine. -/
def resetCommand : UInt32 := 0b01

/-- The status write that acknowledges its interrupt. -/
def acknowledgeCommand : UInt32 := 0b10

/-- The engine: no queue, but errors. -/
def engine : Engine where
  caps := { queued := false, reportsErrors := true }
  statusRegister := PiRegister.status
  classify := .ofCartridgeWord
  queueRegister := none

/-- The length as its register wants it: less one. -/
def lengthField (descriptor : PiDescriptor) : Except Fault UInt32 := Checked.sub descriptor.len 1

/-- The length register that starts a transfer. -/
def lengthRegister : Direction → Register :=
  Direction.lengthRegister PiRegister.readLen PiRegister.writeLen

/-- Start a transfer: both addresses, then the length. -/
def start (descriptor : PiDescriptor) (direction : Direction) : Program Unit := do
  Program.ofExcept (Requirement.check .dramOnDoubleword (← descriptor.dram.isAligned 8))
  Program.ofExcept (Requirement.check .cartOnHalfword (← descriptor.cart.isAligned 2))
  Program.ofExcept
    (Requirement.check .lengthPositiveEven (descriptor.len ≠ 0 && descriptor.len % 2 = 0))
  Program.write PiRegister.dramAddr descriptor.dram.word
  Program.write PiRegister.cartAddr descriptor.cart.word
  let length ← Program.ofExcept (lengthField descriptor)
  Program.write (lengthRegister direction) length

/-- Start a transfer and wait for its end. -/
def transfer (descriptor : PiDescriptor) (direction : Direction) :
    Program (Except BootError Unit) := do
  start descriptor direction
  return (← engine.waitIdle).result

/-- Acknowledge the engine's interrupt. -/
def acknowledge : Program Unit := Program.write PiRegister.status acknowledgeCommand

/-- Abort what the engine is doing. -/
def reset : Program Unit := Program.write PiRegister.status resetCommand

end Pi

end ColdBoot
