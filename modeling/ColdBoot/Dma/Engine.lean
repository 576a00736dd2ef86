import ColdBoot.BootError
import ColdBoot.Config
import ColdBoot.Idle

/-! # DMA engines

Two engines move bytes in and out of RDRAM while the processor goes on. Both have the same protocol:
address registers first, then a length register, whose write starts the transfer; the end is only
ever seen by polling. An **`Engine`** says where to poll and what the words mean.

* **`Engine.waitIdle`** waits for the end of all transfers;
* **`Engine.waitQueue`** waits until another transfer may be started. -/

namespace ColdBoot

/-- Which way the bytes go. -/
inductive Direction where
  /-- From the device into RDRAM. -/
  | toRdram
  /-- From RDRAM to the device. -/
  | fromRdram
  deriving DecidableEq, Repr

/-- The length register of a direction, out of an engine's two. -/
def Direction.lengthRegister (readLen writeLen : Register) : Direction → Register
  | .fromRdram => readLen
  | .toRdram => writeLen

/-- What one look at an engine says. -/
inductive DmaStatus where
  | inProgress
  | ioError
  | completed
  deriving DecidableEq, Repr

namespace DmaStatus

/-- Name of a status. -/
def name : DmaStatus → String
  | .inProgress => "InProgress"
  | .ioError => "IoError"
  | .completed => "Completed"

/-- The cartridge interface's status word: bit 0 is busy, and wins over bit 2, the error. -/
def ofCartridgeWord (word : UInt32) : DmaStatus :=
  if testBit word 0 then .inProgress
  else if testBit word 2 then .ioError
  else .completed

/-- The signal processor's busy word: bit 0 is busy, and there is no error. -/
def ofBusyWord (word : UInt32) : DmaStatus :=
  if testBit word 0 then .inProgress else .completed

/-- A status as the caller's result: only an input/output error is one. -/
def result : DmaStatus → Except BootError Unit
  | .ioError => .error .cartridgeIo
  | _ => .ok ()

end DmaStatus

/-- What an engine can do beyond a single transfer. -/
structure EngineCaps where
  /-- A second transfer may wait behind the active one. -/
  queued : Bool
  /-- The end of a transfer can be an error. -/
  reportsErrors : Bool
  deriving DecidableEq, Repr

/-- Where to poll an engine, and what the words mean. -/
structure Engine where
  caps : EngineCaps
  /-- The register with the status. -/
  statusRegister : Register
  /-- Meaning of the status word. -/
  classify : UInt32 → DmaStatus
  /-- The register whose bit 0 says that the queue slot is occupied. Without one the slot is always
  free. -/
  queueRegister : Option Register

namespace Engine

variable (engine : Engine)

/-- Look at the engine once. -/
def status : Program DmaStatus := do
  return engine.classify (← Program.read engine.statusRegister)

/-- Whether the queue slot is occupied. -/
def queueFull : Program Bool :=
  match engine.queueRegister with
  | none => return false
  | some register => return testBit (← Program.read register) 0

/-- The status word means that no transfer is active any more. -/
def isTerminal (word : UInt32) : Bool := engine.classify word ≠ .inProgress

/-- The result of a wait that saw `word`: an engine that reports no errors always completes. -/
def terminalStatus (word : UInt32) : DmaStatus :=
  match engine.classify word with
  | .ioError => if engine.caps.reportsErrors then .ioError else .completed
  | status => status

/-- Wait until the engine stops, and tell how. -/
def waitIdle : Program DmaStatus := do
  let word ← Idle.spin (.read engine.statusRegister) engine.isTerminal
  return engine.terminalStatus word

/-- Wait until the queue slot is free. -/
def waitSlot : Program Unit :=
  match engine.queueRegister with
  | none => Idle.bracket (return ())
  | some register => do
      let _ ← Idle.spin (.read register) fun word => !testBit word 0

/-- Wait until another transfer may be started: with a queue in use the slot has to be free, and
otherwise the engine has to stop. -/
def waitQueue (config : Config) : Program Unit :=
  if engine.caps.queued && config.dmaQueue then engine.waitSlot
  else do
    let _ ← engine.waitIdle

end Engine

end ColdBoot
