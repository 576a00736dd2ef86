import ColdBoot.BitField
import ColdBoot.Video.Framebuffer

/-! # Video timing

A **`Platform`** is a television standard as a console drives it, and its **`TimingProfile`** the
video register values that depend on it. Spans of the active picture and the two scales are derived
from the profile by checked arithmetic, since a profile may be nonsense. -/

namespace ColdBoot

/-- A television standard, as a console drives it. -/
inductive Platform where
  | ntsc
  | pal
  /-- The Brazilian standard: 525 lines with the colour system of 625. -/
  | mpal
  /-- NTSC timing on the iQue console, which needs another pixel advance. -/
  | ique
  deriving DecidableEq, Repr

/-- Anti-aliasing of the output, in the order of its two-bit code. -/
inductive AntiAlias where
  | resampleFetchAlways
  | resampleFetchNeeded
  | resampleOnly
  | off
  deriving DecidableEq, Repr

namespace AntiAlias

/-- Every mode. -/
def all : List AntiAlias := [.resampleFetchAlways, .resampleFetchNeeded, .resampleOnly, .off]

/-- The two-bit code. -/
def code : AntiAlias → UInt32
  | .resampleFetchAlways => 0
  | .resampleFetchNeeded => 1
  | .resampleOnly => 2
  | .off => 3

end AntiAlias

/-- The video register values of a television standard. -/
structure TimingProfile where
  burst : UInt32
  vSync : UInt32
  hSync : UInt32
  hSyncLeap : UInt32
  hVideo : UInt32
  vVideo : UInt32
  vBurst : UInt32
  pixelAdvance : UInt8
  deriving DecidableEq, Repr

/-- 16-bit pixels, in the pixel type field of the control register. -/
def pixelType16 : UInt32 := 0b10

namespace TimingProfile

/-- The profile of 525 lines. -/
def ntsc : TimingProfile where
  burst := 0x03E52239
  vSync := 0x0000020D
  hSync := 0x00000C15
  hSyncLeap := 0x0C150C15
  hVideo := 0x006C02EC
  vVideo := 0x00230203
  vBurst := 0x000E0204
  pixelAdvance := 3

/-- The profile of 625 lines. -/
def pal : TimingProfile where
  burst := 0x0004233A
  vSync := 0x00000271
  hSync := 0x00150C69
  hSyncLeap := 0x0C6F0C6E
  hVideo := 0x00800300
  vVideo := 0x002D026D
  vBurst := 0x0009026B
  pixelAdvance := 3

/-- The Brazilian profile. -/
def mpal : TimingProfile where
  burst := 0x00651E39
  vSync := 0x0000020D
  hSync := 0x00040C11
  hSyncLeap := 0x0C190C1A
  hVideo := 0x006C02EC
  vVideo := 0x002501FF
  vBurst := 0x000E0204
  pixelAdvance := 3

/-- The iQue console's profile. -/
def ique : TimingProfile := { ntsc with pixelAdvance := 2 }

/-- The control word of a 16-bit picture with this profile. -/
def ctrl (profile : TimingProfile) (mode : AntiAlias) : Except Fault UInt32 := do
  let word ← BitField.put ⟨8, 2⟩ pixelType16 mode.code
  BitField.put ⟨12, 4⟩ word profile.pixelAdvance.toUInt32

/-- End of a span less its start, both ten bits wide. -/
def span (word : UInt32) : Except Fault UInt32 :=
  Checked.sub (BitField.get ⟨0, 10⟩ word) (BitField.get ⟨16, 10⟩ word)

/-- Output pixels in a line. -/
def activeWidth (profile : TimingProfile) : Except Fault UInt32 := span profile.hVideo

/-- Half-lines in a picture. -/
def activeHalfLines (profile : TimingProfile) : Except Fault UInt32 := span profile.vVideo

/-- One, as a scale with ten fractional bits. -/
def scaleOne : UInt32 := 0x400

/-- Framebuffer columns per output pixel, as a scale. -/
def xScale (profile : TimingProfile) : Except Fault UInt32 := do
  let pixels ← profile.activeWidth
  Checked.div (UInt32.ofNat Framebuffer.width * scaleOne) pixels

/-- Framebuffer rows per output line, as a scale. -/
def yScale (profile : TimingProfile) : Except Fault UInt32 := do
  let halfLines ← profile.activeHalfLines
  Checked.div (UInt32.ofNat Framebuffer.height * scaleOne) (halfLines / 2)

end TimingProfile

namespace Platform

/-- Every platform. -/
def all : List Platform := [.ntsc, .pal, .mpal, .ique]

/-- Name of a platform. -/
def name : Platform → String
  | .ntsc => "Ntsc"
  | .pal => "Pal"
  | .mpal => "Mpal"
  | .ique => "Ique"

/-- The register values of a platform. -/
def profile : Platform → TimingProfile
  | .ntsc => .ntsc
  | .pal => .pal
  | .mpal => .mpal
  | .ique => .ique

end Platform

end ColdBoot
