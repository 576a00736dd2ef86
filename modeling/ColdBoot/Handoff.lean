import ColdBoot.BootError
import ColdBoot.Config
import ColdBoot.Log
import ColdBoot.PhysAddr

/-! # Boot handoff

The first-stage loader leaves a block of parameters in low RDRAM. It is only ever read. Codes that
stand for nothing known are kept as they are. -/

namespace ColdBoot

/-- Pieces in which a code without a meaning is printed. -/
def unknownPieces (raw : UInt32) : List String := ["Unknown", "(", toString raw.toNat, ")"]

/-- The television standard the loader reports. -/
inductive TvType where
  | pal
  | ntsc
  | mpal
  | unknown (raw : UInt32)
  deriving DecidableEq, Repr

namespace TvType

/-- Meaning of a code. -/
def ofCode (raw : UInt32) : TvType :=
  if raw = 0 then .pal else if raw = 1 then .ntsc else if raw = 2 then .mpal else .unknown raw

/-- Pieces in which a standard is printed. -/
def pieces : TvType → List String
  | .pal => ["Pal"]
  | .ntsc => ["Ntsc"]
  | .mpal => ["Mpal"]
  | .unknown raw => unknownPieces raw

end TvType

/-- The medium the console was booted from. -/
inductive RomType where
  | cartridge
  | disk
  | unknown (raw : UInt32)
  deriving DecidableEq, Repr

namespace RomType

/-- Meaning of a code. -/
def ofCode (raw : UInt32) : RomType :=
  if raw = 0 then .cartridge else if raw = 1 then .disk else .unknown raw

/-- Pieces in which a medium is printed. -/
def pieces : RomType → List String
  | .cartridge => ["Cartridge"]
  | .disk => ["Disk"]
  | .unknown raw => unknownPieces raw

end RomType

/-- Whether power or the reset button started the console. -/
inductive ResetType where
  | cold
  | warm
  | unknown (raw : UInt32)
  deriving DecidableEq, Repr

namespace ResetType

/-- Meaning of a code. -/
def ofCode (raw : UInt32) : ResetType :=
  if raw = 0 then .cold else if raw = 1 then .warm else .unknown raw

/-- Pieces in which a kind of reset is printed. -/
def pieces : ResetType → List String
  | .cold => ["Cold"]
  | .warm => ["Warm"]
  | .unknown raw => unknownPieces raw

end ResetType

/-- What the loader says about the console. -/
structure BootParams where
  tvType : TvType
  romType : RomType
  romBase : PhysAddr
  resetType : ResetType
  cicId : UInt32
  memSize : UInt32
  deriving DecidableEq

namespace BootParams

/-- Physical address of the parameter block. -/
def blockAddress : UInt32 := 0x300

/-- Bytes in the block, the buffer that survives a reset included. -/
def blockSize : UInt32 := 0x5C

/-- Bytes of RDRAM in a console without expansion. -/
def stockMemory : UInt32 := 0x400000

/-- A cold boot of an NTSC cartridge on a stock console. -/
def stock : BootParams where
  tvType := .ntsc
  romType := .cartridge
  romBase := .ofAddress 0x10000000
  resetType := .cold
  cicId := 0
  memSize := stockMemory

/-- Read the block. -/
def read : Program BootParams := do
  let tvType ← Program.read HandoffRegister.tvType
  let romType ← Program.read HandoffRegister.romType
  let romBase ← Program.read HandoffRegister.romBase
  let resetType ← Program.read HandoffRegister.resetType
  let cicId ← Program.read HandoffRegister.cicId
  let memSize ← Program.read HandoffRegister.memSize
  return {
    tvType := .ofCode tvType
    romType := .ofCode romType
    romBase := .ofAddress romBase
    resetType := .ofCode resetType
    cicId
    memSize }

/-- Memory beyond that of a stock console is fitted. -/
def hasExpansion (params : BootParams) : Bool := stockMemory < params.memSize

end BootParams

namespace Platform

/-- The platform of a television standard. -/
def ofTvType : TvType → Except BootError Platform
  | .pal => .ok .pal
  | .ntsc => .ok .ntsc
  | .mpal => .ok .mpal
  | .unknown raw => .error (.unknownTvType raw)

/-- What is logged about a standard without a profile. -/
def fallbackRecord (error : BootError) : LogRecord where
  level := .warn
  target := "n64rt::video::timing"
  pieces := error.pieces ++ [", falling back to NTSC"]

/-- The platform to drive: the pinned one, or else the loader's, or else NTSC. -/
def detect (config : Config) (params : BootParams) : Program Platform :=
  match config.pinnedPlatform with
  | some platform => return platform
  | none =>
      match ofTvType params.tvType with
      | .ok platform => return platform
      | .error error => do
          (fallbackRecord error).emit config.logFilter
          return .ntsc

end Platform

end ColdBoot
