import ColdBoot.BitField
import ColdBoot.Flags
import ColdBoot.Program

/-! # Interrupt lines

Six devices share one interrupt input of the processor. The interrupt controller shows which of
their lines are pending and which are enabled, both as flag words of six bits.

The mask of enabled lines is never written as such: line `k` has a *clear* bit at `2k` and a *set*
bit at `2k + 1` of the written word, so that single lines can be switched without reading the mask
first. `LineMask.apply` is the controller's side of that rule. -/

namespace ColdBoot

/-- A device that can interrupt, in the order of its line. -/
inductive InterruptSource where
  /-- The signal processor. -/
  | sp
  /-- The serial interface. -/
  | si
  /-- The audio interface. -/
  | ai
  /-- The video interface. -/
  | vi
  /-- The cartridge interface. -/
  | pi
  /-- The display processor. -/
  | dp
  deriving DecidableEq, Repr

namespace InterruptSource

/-- Every source, lowest line first. -/
def all : List InterruptSource := [.sp, .si, .ai, .vi, .pi, .dp]

/-- Name of a source. -/
def name : InterruptSource → String
  | .sp => "Sp"
  | .si => "Si"
  | .ai => "Ai"
  | .vi => "Vi"
  | .pi => "Pi"
  | .dp => "Dp"

/-- Number of the source's line. -/
def index : InterruptSource → UInt32
  | .sp => 0
  | .si => 1
  | .ai => 2
  | .vi => 3
  | .pi => 4
  | .dp => 5

/-- The source's line in a word of pending or enabled lines. -/
def line (source : InterruptSource) : Flags := 1 <<< source.index

/-- The pending source with the lowest line. -/
def first? (pending : Flags) : Option InterruptSource :=
  all.find? fun source => pending.contains source.line

end InterruptSource

namespace Lines

/-- The word of pending or enabled lines. -/
def register : FlagRegister where
  name := "MiInterrupts"
  flags := ["SP", "SI", "AI", "VI", "PI", "DP"].zipWith Flag.mk
    (InterruptSource.all.map InterruptSource.line)

/-- All six lines. -/
def all : Flags := register.all

end Lines

namespace LineMask

/-- The word written to change the mask. -/
def register : FlagRegister where
  name := "MiMask"
  flags := ["CLEAR_SP", "SET_SP", "CLEAR_SI", "SET_SI", "CLEAR_AI", "SET_AI", "CLEAR_VI", "SET_VI",
      "CLEAR_PI", "SET_PI", "CLEAR_DP", "SET_DP"].zipWith Flag.mk
    ((List.range 12).map fun k => (1 : UInt32) <<< UInt32.ofNat k)

/-- For each line of `lines`, bit `which` of its pair. -/
def pairs (lines : Flags) (which : UInt32) : Flags :=
  InterruptSource.all.foldl (fun word source =>
    if testBit lines source.index then word.union (1 <<< (2 * source.index + which)) else word) 0

/-- The write that enables `lines` and leaves the others alone. -/
def setting (lines : Flags) : Flags := pairs lines 1

/-- The write that disables `lines` and leaves the others alone. -/
def clearing (lines : Flags) : Flags := pairs lines 0

/-- The mask after `word` is written: for each line its clear bit counts first, then its set bit. -/
def apply (mask word : Flags) : Flags :=
  InterruptSource.all.foldl (fun mask source =>
    let mask := if testBit word (2 * source.index) then mask.without source.line else mask
    if testBit word (2 * source.index + 1) then mask.union source.line else mask) mask

end LineMask

namespace Lines

/-- The pending lines, without reserved bits. -/
def pending : Program Flags := return register.truncate (← Program.read MiRegister.intr)

/-- The enabled lines, without reserved bits. -/
def enabled : Program Flags := return register.truncate (← Program.read MiRegister.mask)

/-- Enable `lines` and leave the others alone. -/
def enable (lines : Flags) : Program Unit :=
  Program.write MiRegister.mask (LineMask.setting lines)

/-- Disable `lines` and leave the others alone. -/
def disable (lines : Flags) : Program Unit :=
  Program.write MiRegister.mask (LineMask.clearing lines)

/-- Revision bytes of the signal processor, the display processor, the RDRAM controller and the
input/output part, in this order. -/
def revision : Program (List UInt8) := do
  let word ← Program.read MiRegister.version
  return [24, 16, 8, 0].map fun low => (BitField.get ⟨low, 8⟩ word).toUInt8

end Lines

end ColdBoot
