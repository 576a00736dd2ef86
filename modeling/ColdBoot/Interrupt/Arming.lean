import ColdBoot.Cpu.Control
import ColdBoot.Interrupt.Line
import ColdBoot.Interrupt.Trampoline

/-! # Arming interrupts

Interrupts come to life in two steps and never go back: the vector is patched with everything
masked, then the video line is let through. The type says how far they have come. -/

namespace ColdBoot

/-- How far interrupts have come to life. -/
inductive InterruptStage where
  /-- The vector is not yet patched. -/
  | uninstalled
  /-- The vector is patched, and everything is masked. -/
  | installed
  /-- The video line is let through. -/
  | armed
  deriving DecidableEq, Repr

/-- The interrupt controller at one stage. -/
structure Interrupts (stage : InterruptStage) where

namespace Interrupts

/-- Interrupts before anything was done. -/
def fresh : Interrupts .uninstalled := {}

/-- Mask everything and patch the vector. -/
def install (config : Config) (_ : Interrupts .uninstalled) (trampoline : Trampoline)
    (slot : VectorSlot) : Program (Interrupts .installed) := do
  let _ ← Cpu.disableInterrupts
  Lines.disable Lines.all
  trampoline.install config slot
  return {}

/-- The status word that lets the video interrupt through. -/
def armedStatus (status : Flags) : Flags :=
  (status.without (CpuStatus.exl.union CpuStatus.erl)).union (CpuStatus.im2.union CpuStatus.ie)

/-- What is logged once interrupts are on. -/
def armedRecord : LogRecord where
  level := .info
  target := "n64rt::interrupt"
  pieces := ["VI interrupt armed"]

/-- Let the video line through and turn interrupts on. -/
def armVideo (config : Config) (_ : Interrupts .installed) : Program (Interrupts .armed) := do
  Lines.enable InterruptSource.vi.line
  let _ ← Cpu.modifyStatus armedStatus
  armedRecord.emit config.logFilter
  return {}

end Interrupts

end ColdBoot
