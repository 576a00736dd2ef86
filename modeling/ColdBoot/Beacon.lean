import ColdBoot.Config
import ColdBoot.Program

/-! # The boot beacon

Two words in low RDRAM that a debugger can read after a hang: a mark, and the stage that the boot
has reached. They are only written when the configuration asks for it. -/

namespace ColdBoot

/-- How far the boot has come. -/
inductive BootStage where
  | entry
  | trampoline
  | video
  | armed
  | loop
  | halt
  deriving DecidableEq, Repr

/-- Four characters as a word, the first one on top. -/
def fourCharacters (a b c d : Char) : UInt32 :=
  (a.val <<< 24) ||| (b.val <<< 16) ||| (c.val <<< 8) ||| d.val

namespace BootStage

/-- Every stage. -/
def all : List BootStage := [.entry, .trampoline, .video, .armed, .loop, .halt]

/-- Name of a stage. -/
def name : BootStage → String
  | .entry => "Entry"
  | .trampoline => "Trampoline"
  | .video => "Video"
  | .armed => "Armed"
  | .loop => "Loop"
  | .halt => "Halt"

/-- The word that stands for a stage. -/
def code : BootStage → UInt32
  | .entry => fourCharacters 'S' 'T' 'E' 'N'
  | .trampoline => fourCharacters 'S' 'T' 'T' 'R'
  | .video => fourCharacters 'S' 'T' 'V' 'I'
  | .armed => fourCharacters 'S' 'T' 'A' 'R'
  | .loop => fourCharacters 'S' 'T' 'L' 'P'
  | .halt => fourCharacters 'S' 'T' 'H' 'L'

end BootStage

namespace Beacon

/-- Physical address of the two words. -/
def address : UInt32 := 0x3F8

/-- The mark. -/
def magic : UInt32 := fourCharacters 'N' '6' '4' 'B'

/-- Record that a stage is reached. -/
def mark (config : Config) (stage : BootStage) : Program Unit :=
  if config.bootBeacon then do
    Program.write BeaconRegister.magic magic
    Program.write BeaconRegister.stage stage.code
  else
    .done ()

end Beacon

end ColdBoot
