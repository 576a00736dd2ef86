import ColdBoot.Log.Level
import ColdBoot.Video.Timing

/-! # Configuration

What is decided before the console is switched on: whether the signal processor's transfer queue is
used, whether boot progress is left in memory, which platform is driven whatever the loader says,
and how much is logged. -/

namespace ColdBoot

/-- The choices made when a program is built. -/
structure Config where
  /-- Start a transfer behind the active one. -/
  dmaQueue : Bool
  /-- Write the stages of the boot to the beacon. -/
  bootBeacon : Bool
  /-- Drive this platform and ignore the loader's television standard. -/
  pinnedPlatform : Option Platform
  /-- Which records are printed. -/
  logFilter : LogFilter
  deriving DecidableEq, Repr

end ColdBoot
