import ColdBoot.Fence
import ColdBoot.Interrupt.Line

/-! # Interrupt dispatch

An exception is served if it is an interrupt on the device line and the lowest line that is both
pending and enabled is the video interface's. Everything else stops the machine. Nothing here logs,
since it runs in interrupt context. -/

namespace ColdBoot

/-- What became of an exception. -/
inductive Dispatch where
  /-- The source was served. -/
  | handled (source : InterruptSource)
  /-- Nobody serves it; `pending` are the enabled lines that were pending. -/
  | unhandled (cause : Cause) (pending : Flags)
  deriving DecidableEq, Repr

namespace Interrupt

/-- The interrupt's half of the vertical blank: raise the flag and drop the line. -/
def vblank : Program Unit := do
  Fence.signal
  Program.write ViRegister.vCurrent 0

/-- Find out why an exception came, and serve it if possible. -/
def dispatch (cause : Cause) : Program Dispatch :=
  if !cause.isInterrupt || !cause.deviceLineRaised then
    return .unhandled cause 0
  else do
    let raised ← Lines.pending
    let pending := raised.inter (← Lines.enabled)
    match InterruptSource.first? pending with
    | some .vi => do
        vblank
        return .handled .vi
    | _ => return .unhandled cause pending

/-- What the low-level entry calls: dispatch, and halt on anything that nobody serves. -/
def handle : Program Unit := do
  match ← dispatch (← Cpu.cause) with
  | .handled _ => return ()
  | .unhandled _ _ => Cpu.halt

end Interrupt

end ColdBoot
