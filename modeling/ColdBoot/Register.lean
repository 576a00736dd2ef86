import ColdBoot.Numeral

/-! # Memory-mapped registers

Six blocks of 32-bit words are reached by plain loads and stores: the register blocks of the signal
processor, the interrupt controller, the video and the cartridge interface, the words in low RDRAM
that the first-stage loader and a debugger look at, and the log window of a development cartridge.

A **`Register`** is a block and a byte offset in it. The registers in use have names; any other word
goes by its offset. -/

namespace ColdBoot

/-- A block of registers. -/
inductive RegisterBlock where
  /-- The signal processor's DMA engine. -/
  | sp
  /-- The interrupt controller. -/
  | mi
  /-- The video interface. -/
  | vi
  /-- The cartridge interface. -/
  | pi
  /-- Words in low RDRAM. -/
  | ram
  /-- The log window. -/
  | viewer
  deriving DecidableEq, Repr

namespace RegisterBlock

/-- Every block. -/
def all : List RegisterBlock := [.sp, .mi, .vi, .pi, .ram, .viewer]

/-- Short name. -/
def name : RegisterBlock → String
  | .sp => "sp"
  | .mi => "mi"
  | .vi => "vi"
  | .pi => "pi"
  | .ram => "ram"
  | .viewer => "isv"

/-- Physical address of the block. -/
def base : RegisterBlock → UInt32
  | .sp => 0x04040000
  | .mi => 0x04300000
  | .vi => 0x04400000
  | .pi => 0x04600000
  | .ram => 0x00000000
  | .viewer => 0x13FF0000

/-- Names of the words in use, with their byte offsets. -/
def words : RegisterBlock → List (Nat × String)
  | .sp =>
      [(0x00, "mem_addr"), (0x04, "dram_addr"), (0x08, "rd_len"), (0x0C, "wr_len"),
       (0x10, "status"), (0x14, "dma_full"), (0x18, "dma_busy"), (0x1C, "semaphore")]
  | .mi => [(0x00, "mode"), (0x04, "version"), (0x08, "intr"), (0x0C, "mask")]
  | .vi =>
      [(0x00, "ctrl"), (0x04, "origin"), (0x08, "width"), (0x0C, "v_intr"), (0x10, "v_current"),
       (0x14, "burst"), (0x18, "v_sync"), (0x1C, "h_sync"), (0x20, "h_sync_leap"),
       (0x24, "h_video"), (0x28, "v_video"), (0x2C, "v_burst"), (0x30, "x_scale"),
       (0x34, "y_scale")]
  | .pi =>
      [(0x00, "dram_addr"), (0x04, "cart_addr"), (0x08, "rd_len"), (0x0C, "wr_len"),
       (0x10, "status")]
  | .ram =>
      [(0x300, "tv_type"), (0x304, "rom_type"), (0x308, "rom_base"), (0x30C, "reset_type"),
       (0x310, "cic_id"), (0x314, "version"), (0x318, "mem_size"), (0x3F8, "beacon_magic"),
       (0x3FC, "beacon_stage")]
  | .viewer => [(0x14, "length")]

end RegisterBlock

/-- One 32-bit word of a block. -/
structure Register where
  block : RegisterBlock
  offset : Nat
  deriving DecidableEq, Repr

namespace Register

/-- Name of a register: its block, and the word's name or else its offset. -/
def name (register : Register) : String :=
  let word := match register.block.words.find? (·.1 = register.offset) with
    | some (_, text) => text
    | none => Numeral.hex 3 register.offset
  register.block.name ++ "." ++ word

/-- The value of a lower-case hexadecimal numeral. -/
private def hexValue? (text : List Char) : Option Nat :=
  text.foldl (fun value digit => do
    let v ← value
    let d ← if digit.isDigit then some (digit.toNat - '0'.toNat)
      else if 'a' ≤ digit ∧ digit ≤ 'f' then some (digit.toNat - 'a'.toNat + 10)
      else none
    return 16 * v + d) (some 0)

/-- The register of a name, given by word or by three-digit offset. -/
def ofName? (text : String) : Option Register :=
  match text.splitOn "." with
  | [blockName, word] => do
      let block ← RegisterBlock.all.find? (·.name = blockName)
      match block.words.find? (·.2 = word) with
      | some (offset, _) => return ⟨block, offset⟩
      | none =>
          let digits := word.toList
          guard (digits.length = 3)
          let offset ← hexValue? digits
          guard (offset % 4 = 0)
          return ⟨block, offset⟩
  | _ => none

/-- The word `n` words further on in the same block. -/
def shift (register : Register) (n : Nat) : Register := ⟨register.block, register.offset + 4 * n⟩

end Register

/-! ### The registers in use -/

namespace SpRegister

/-- Address inside the signal processor's memory. -/
def memAddr : Register := ⟨.sp, 0x00⟩

/-- Address in RDRAM. -/
def dramAddr : Register := ⟨.sp, 0x04⟩

/-- Length of a transfer out of RDRAM; writing it starts the transfer. -/
def readLen : Register := ⟨.sp, 0x08⟩

/-- Length of a transfer into RDRAM; writing it starts the transfer. -/
def writeLen : Register := ⟨.sp, 0x0C⟩

/-- Bit 0: the queue slot is occupied. -/
def dmaFull : Register := ⟨.sp, 0x14⟩

/-- Bit 0: a transfer is active. -/
def dmaBusy : Register := ⟨.sp, 0x18⟩

end SpRegister

namespace PiRegister

/-- Address in RDRAM. -/
def dramAddr : Register := ⟨.pi, 0x00⟩

/-- Address on the cartridge bus. -/
def cartAddr : Register := ⟨.pi, 0x04⟩

/-- Length of a transfer out of RDRAM; writing it starts the transfer. -/
def readLen : Register := ⟨.pi, 0x08⟩

/-- Length of a transfer into RDRAM; writing it starts the transfer. -/
def writeLen : Register := ⟨.pi, 0x0C⟩

/-- Read: busy and error bits. Written: reset and acknowledge. -/
def status : Register := ⟨.pi, 0x10⟩

end PiRegister

namespace MiRegister

/-- Revision bytes of the chips. -/
def version : Register := ⟨.mi, 0x04⟩

/-- Pending lines. -/
def intr : Register := ⟨.mi, 0x08⟩

/-- Enabled lines. -/
def mask : Register := ⟨.mi, 0x0C⟩

end MiRegister

namespace ViRegister

/-- Pixel format; non-zero turns the output on. -/
def ctrl : Register := ⟨.vi, 0x00⟩

/-- Physical address of the displayed framebuffer. -/
def origin : Register := ⟨.vi, 0x04⟩

/-- Pixels in a row. -/
def width : Register := ⟨.vi, 0x08⟩

/-- Half-line to interrupt on. -/
def vIntr : Register := ⟨.vi, 0x0C⟩

/-- Current half-line; any write acknowledges the interrupt. -/
def vCurrent : Register := ⟨.vi, 0x10⟩

/-- Colour burst. -/
def burst : Register := ⟨.vi, 0x14⟩

/-- Half-lines in a field. -/
def vSync : Register := ⟨.vi, 0x18⟩

/-- Length of a line. -/
def hSync : Register := ⟨.vi, 0x1C⟩

/-- Leap pattern of the line length. -/
def hSyncLeap : Register := ⟨.vi, 0x20⟩

/-- Active horizontal span. -/
def hVideo : Register := ⟨.vi, 0x24⟩

/-- Active vertical span. -/
def vVideo : Register := ⟨.vi, 0x28⟩

/-- Vertical span of the colour burst. -/
def vBurst : Register := ⟨.vi, 0x2C⟩

/-- Horizontal scale. -/
def xScale : Register := ⟨.vi, 0x30⟩

/-- Vertical scale. -/
def yScale : Register := ⟨.vi, 0x34⟩

end ViRegister

namespace HandoffRegister

/-- Television standard. -/
def tvType : Register := ⟨.ram, 0x300⟩

/-- Boot medium. -/
def romType : Register := ⟨.ram, 0x304⟩

/-- Bus address of the boot medium. -/
def romBase : Register := ⟨.ram, 0x308⟩

/-- Kind of reset. -/
def resetType : Register := ⟨.ram, 0x30C⟩

/-- Seed of the lockout chip. -/
def cicId : Register := ⟨.ram, 0x310⟩

/-- Bytes of RDRAM. -/
def memSize : Register := ⟨.ram, 0x318⟩

end HandoffRegister

namespace BeaconRegister

/-- The word that marks a beacon. -/
def magic : Register := ⟨.ram, 0x3F8⟩

/-- The stage reached. -/
def stage : Register := ⟨.ram, 0x3FC⟩

end BeaconRegister

namespace ViewerRegister

/-- Bytes in the buffer; writing it prints them. -/
def length : Register := ⟨.viewer, 0x14⟩

/-- Word `slot` of the text buffer. -/
def buffer (slot : Nat) : Register := ⟨.viewer, 0x20 + 4 * slot⟩

end ViewerRegister

end ColdBoot
