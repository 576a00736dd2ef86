import ColdBoot.Proofs.Chassis
import ColdBoot.Proofs.TransferEngine

/-! # A prompt board

Devices on which programs come to their end: a signal processor whose engine carries out a transfer
as soon as it is started, RDRAM with nothing in front of it, and plain words for all registers
besides.

* **`PromptBoard.respond`** – the devices;
* **`Chassis.exists_execution`** – a machine whose devices are idle whenever they are asked, and whose
  exceptions are taken, can end every wait of a steady program. -/

namespace ColdBoot

open Program

/-- The engine is idle whenever it is asked. -/
def Devices.Idle {δ : Type} (devices : Devices δ) : Prop :=
  ∀ board, (devices (.read SpRegister.dmaBusy) board).1 = 0 ∧
    (devices (.read SpRegister.dmaFull) board).1 = 0

/-! ### The board -/

/-- The engine, RDRAM, and the words of all other registers. -/
structure PromptBoard where
  engine : TransferEngine
  rdram : Bytes
  words : Register → UInt32

namespace PromptBoard

/-- Everything zero. -/
def blank : PromptBoard where
  engine := ⟨0, 0, [], [], fun _ => 0⟩
  rdram := fun _ => 0
  words := fun _ => 0

/-- Carry a transfer out. -/
def carryOut (board : PromptBoard) (transfer : Transfer) : PromptBoard :=
  match transfer.direction with
  | .fromRdram =>
      let stores := transfer.bytes.map fun byte => (byte.mem, board.rdram byte.dram)
      { board with engine := { board.engine with dmem := board.engine.dmem.stored stores } }
  | .toRdram =>
      let stores := transfer.bytes.map fun byte => (byte.dram, board.engine.dmem byte.mem)
      { board with rdram := board.rdram.stored stores }

/-- Carry out all that is outstanding. -/
def settle (board : PromptBoard) : PromptBoard :=
  let carried := board.engine.queue.foldl carryOut board
  { carried with engine := { carried.engine with queue := [] } }

/-- What the board answers, and what becomes of it. -/
def respond : Devices PromptBoard
  | .read register, board => (if register.block = .sp then 0 else board.words register, board)
  | .write register value, board =>
      ((), settle { board with
        engine := board.engine.write register value
        words := Function.update board.words register value })
  | .loadFrame vaddr, board => (Framebuffer.ofBytes board.rdram (placeOf vaddr), board)
  | .storePixels vaddr drawing, board =>
      ((), { board with rdram := board.rdram.stored (Drawing.stores drawing (placeOf vaddr)) })
  | .fillStaging vaddr color, board =>
      ((), { board with rdram := board.rdram.stored (color.pageStores (placeOf vaddr)) })
  | .storeDoubleword vaddr word, board =>
      ((), { board with rdram := board.rdram.stored (doublewordStores word (placeOf vaddr)) })
  | .cache _ _, board => ((), board)
  | .getStatus, board | .getCause, board => ((0 : UInt32), board)
  | .getFence, board => (false, board)
  | .setStatus _, board | .setFence _, board => ((), board)

theorem respond_idle : Devices.Idle respond := fun _ => ⟨rfl, rfl⟩

end PromptBoard

/-! ### Waits that end -/

namespace Chassis

open Controls

variable {δ α : Type} {devices : Devices δ} {s : Chassis δ}

/-- The cause word of an interrupt on the device line. -/
def deviceInterrupt : Cause := ⟨0x00000400⟩

theorem exists_answer (gate : Controls → Prop) (s : Chassis δ) (command : Command) :
    ∃ answer t, (hardware devices gate).responds s command answer t :=
  ⟨(s.respond devices command).1, (s.respond devices command).2, rfl⟩

/-- An engine that is idle is not waited for. -/
theorem liveWithin (idle : devices.Idle) (gate : Controls → Prop) :
    (hardware devices gate).LiveWithin (· ≠ .getFence) where
  answers := exists_answer gate
  waits s command accepted member wait := by
    cases wait with
    | idle =>
      obtain ⟨answer, t, responded⟩ := exists_answer gate s (.read SpRegister.dmaBusy)
      have zero : answer = 0 := by
        rw [← (idle s.devices).1]
        exact (Prod.mk.inj responded).1.symm
      refine ⟨s, answer, t, .refl, responded, ?_⟩
      rw [zero]
      decide
    | slot =>
      obtain ⟨answer, t, responded⟩ := exists_answer gate s (.read SpRegister.dmaFull)
      have zero : answer = 0 := by
        rw [← (idle s.devices).2]
        exact (Prod.mk.inj responded).1.symm
      refine ⟨s, answer, t, .refl, responded, ?_⟩
      rw [zero]
      decide
    | fence => exact absurd rfl member

/-- An exception that asks for the service of a vertical blank gets it. -/
theorem excepts_of_only (only : s.controls.lines.inter Lines.all = InterruptSource.vi.line) :
    s.Excepts devices (s.raise deviceInterrupt InterruptSource.vi.line).serviced := by
  have interrupt : deviceInterrupt.isInterrupt = true := by decide
  have device : deviceInterrupt.deviceLineRaised = true := by decide
  have raised : InterruptSource.vi.line.contains InterruptSource.vi.line = true := by decide
  let met := s.raise deviceInterrupt InterruptSource.vi.line
  have first : InterruptSource.first? met.asking = some .vi := first_of_contains only raised
  have handled : (still devices).Follows (Interrupt.dispatch met.cause) met _ _ met.serviced :=
    follows_handled interrupt device first
  obtain ⟨moments, execution, -⟩ := (follows_handle_of_handled handled).exists_execution
  exact ⟨deviceInterrupt, InterruptSource.vi.line, moments, interrupt, device, raised, execution⟩

/-- Where exceptions are taken the wait for the flag can end as well. -/
theorem Listens.exists_end_of_wait (idle : devices.Idle) (listens : s.Listens) {command : Command}
    {accepted : command.Answer → Bool} (wait : IsWait command accepted) :
    ∃ met answer t, (hardware devices Interruptible).MovesTo s met ∧
      (hardware devices Interruptible).responds met command answer t ∧ accepted answer = true := by
  cases wait with
  | idle => exact (liveWithin idle _).waits s _ _ nofun .idle
  | slot => exact (liveWithin idle _).waits s _ _ nofun .slot
  | fence =>
    exact ⟨_, true, _, .single ⟨listens.interruptible, excepts_of_only listens.only⟩, rfl, rfl⟩

/-- **A steady program that is finishable** has an execution that returns on a machine whose devices
are idle. -/
theorem exists_execution (idle : devices.Idle) {program : Program α} {result : α → Prop}
    (armed : CpuStatus.Armed s.controls.status)
    (only : s.controls.lines.inter Lines.all = InterruptSource.vi.line)
    (steady : program.StaysSteady Interruptible s.controls s.controls.status s.controls.lines)
    (finishable : program.Finishable result) : ∃ moments value t, result value ∧
      (hardware devices Interruptible).Execution program s moments (.returned value) t := by
  have ensures : (hardware devices Interruptible).Ensures ⟨fun _ _ => True, Listens⟩ (· = s) program
      fun _ _ => True := by
    rintro _ moments ending t rfl execution
    exact ⟨fun _ _ => trivial, listens_of_steady armed only steady execution, fun _ _ => trivial⟩
  exact ensures.exists_execution (exists_answer _)
    (fun _ _ _ listens wait => Listens.exists_end_of_wait idle listens wait) finishable

end Chassis

end ColdBoot
