/-! # Errors the boot path can recover from

Everything that is no fault and no reason to halt, but that a caller has to know. -/

namespace ColdBoot

/-- An error reported to the caller. -/
inductive BootError where
  /-- A cartridge transfer ended with its error bit set. -/
  | cartridgeIo
  /-- No timing profile fits the loader's television standard. -/
  | unknownTvType (raw : UInt32)
  deriving DecidableEq, Repr

namespace BootError

/-- The pieces in which the wording is printed. -/
def pieces : BootError → List String
  | .cartridgeIo => ["PI DMA reported an I/O error"]
  | .unknownTvType raw => ["unknown TV type ", toString raw.toNat, " in boot handoff"]

/-- The wording. -/
def message (error : BootError) : String := String.join error.pieces

end BootError

end ColdBoot
