import ColdBoot.Flags
import ColdBoot.Register
import ColdBoot.Video.Framebuffer

/-! # Commands

A **command** is one access that a program makes to the machine: to a control register of the
processor, to a cache line, to a memory-mapped register, to the vblank flag, to picture memory, or
to another doubleword of memory. `Command.Answer` says what the machine gives back. -/

namespace ColdBoot

/-- What a cache instruction does to a line. -/
inductive CacheOperation where
  /-- Drop an instruction line. -/
  | invalidateInstruction
  /-- Write a dirty data line to RDRAM. -/
  | writeBackData
  /-- Drop a data line, dirty or not. -/
  | invalidateData
  deriving DecidableEq, Repr

/-- Byte `k` of a doubleword, counted from its most significant one. -/
def doublewordByte (word : UInt64) (k : Nat) : UInt8 :=
  (word >>> UInt64.ofNat (56 - 8 * k)).toUInt8

/-- One access to the machine. -/
inductive Command where
  /-- Read the processor's status word. -/
  | getStatus
  /-- Write the processor's status word. -/
  | setStatus (status : Flags)
  /-- Read the processor's cause word. -/
  | getCause
  /-- Act on the cache line that holds an address. -/
  | cache (operation : CacheOperation) (vaddr : UInt32)
  /-- Read a register. -/
  | read (register : Register)
  /-- Write a register. -/
  | write (register : Register) (value : UInt32)
  /-- Store a doubleword at an address, most significant byte first. -/
  | storeDoubleword (vaddr : UInt32) (word : UInt64)
  /-- Set the vblank flag. -/
  | setFence (signaled : Bool)
  /-- Read the vblank flag. -/
  | getFence
  /-- Read the framebuffer at an address. -/
  | loadFrame (vaddr : UInt32)
  /-- Store pixels of the framebuffer at an address. -/
  | storePixels (vaddr : UInt32) (drawing : Drawing)
  /-- Store one colour all over the staging page at an address. -/
  | fillStaging (vaddr : UInt32) (color : Color)
  deriving DecidableEq

/-- What the machine gives back for a command. -/
@[reducible] def Command.Answer : Command → Type
  | .getStatus => Flags
  | .getCause => UInt32
  | .read _ => UInt32
  | .getFence => Bool
  | .loadFrame _ => Framebuffer
  | _ => Unit

end ColdBoot
