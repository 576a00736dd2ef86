import ColdBoot.Cpu.Control

/-! # Waiting in reduced power

Every wait runs with the processor in reduced power: the devices it waits for have clocks of their
own. `Idle.enter` and `Idle.leave` are the two ends of the bracket, and `Idle.spin` is a wait
inside one. -/

namespace ColdBoot.Idle

/-- Go to reduced power. -/
def enter : Program Unit := do
  let _ ← Cpu.modifyStatus (·.union CpuStatus.rp)

/-- Go back to full power. -/
def leave : Program Unit := do
  let _ ← Cpu.modifyStatus (·.without CpuStatus.rp)

/-- Run a program in reduced power. -/
def bracket {α : Type} (body : Program α) : Program α := do
  enter
  let value ← body
  leave
  return value

/-- Repeat an access in reduced power until its answer is accepted. -/
def spin (command : Command) (accepted : command.Answer → Bool) : Program command.Answer :=
  bracket (.repeatUntil command accepted)

end ColdBoot.Idle
