import ColdBoot.Bench.Rdram
import ColdBoot.Bench.Trace
import ColdBoot.Dma.Engine
import ColdBoot.Interrupt.Dispatch
import ColdBoot.Log.Host
import ColdBoot.PhysAddr

/-! # The bench

A **`Machine`** is an emulated console that writes down what is done to it. Registers are plain words
except where hardware gives them a meaning: the interrupt mask takes clear and set bits, a write to
the current half-line drops the video line, registers may be *fed* values to read, and with a
**transfer model** the signal processor's engine copies bytes and is busy for so many looks.

Interrupts come on schedule, when a program goes to reduced power. A wait that can never end, and an
exception that nobody serves, end the program; `Failure` says how. -/

namespace ColdBoot

namespace Bench

/-! ### Parts -/

/-- The words of all register blocks. -/
structure RegisterFile where
  words : Array UInt32

namespace RegisterFile

/-- Words in a block. -/
def blockWords : Nat := 1024

/-- All words zero. -/
def zero : RegisterFile := ⟨Array.replicate (RegisterBlock.all.length * blockWords) 0⟩

/-- Number of a block. -/
def blockIndex : RegisterBlock → Nat
  | .sp => 0
  | .mi => 1
  | .vi => 2
  | .pi => 3
  | .ram => 4
  | .viewer => 5

/-- Place of a register's word. -/
def place (register : Register) : Nat := blockIndex register.block * blockWords + register.offset / 4

/-- The word of a register. -/
def get (file : RegisterFile) (register : Register) : UInt32 := file.words.getD (place register) 0

/-- The file with another word in a register. -/
def set (file : RegisterFile) (register : Register) (value : UInt32) : RegisterFile :=
  ⟨file.words.setIfInBounds (place register) value⟩

end RegisterFile

/-- The signal processor's engine on the bench. -/
structure TransferModel where
  /-- Looks that a transfer takes. -/
  latency : Nat
  /-- Transfers accepted and not yet over, two at most. -/
  inFlight : Nat
  /-- Looks since the first of them began. -/
  looks : Nat
  deriving DecidableEq, Repr

namespace TransferModel

/-- An engine that is idle. -/
def idle (latency : Nat) : TransferModel := ⟨latency, 0, 0⟩

/-- What a look at the busy or the full register shows, if the register is one of these. -/
def shown? (model : TransferModel) (register : Register) : Option UInt32 :=
  if register = SpRegister.dmaBusy then some (if 0 < model.inFlight then 1 else 0)
  else if register = SpRegister.dmaFull then some (if 2 ≤ model.inFlight then 1 else 0)
  else none

/-- The engine after a look. -/
def look (model : TransferModel) : TransferModel :=
  if model.inFlight = 0 then model
  else if model.latency ≤ model.looks + 1 then
    { model with inFlight := model.inFlight - 1, looks := 0 }
  else { model with looks := model.looks + 1 }

end TransferModel

/-- An interrupt that is to come when a program goes to reduced power. -/
structure ScheduledInterrupt where
  /-- Come at this entry into reduced power. -/
  at? : Option Nat
  /-- Come at every multiple of this number, if interrupts are on. -/
  every : Nat
  cause : UInt32
  pending : UInt32
  deriving DecidableEq, Repr

/-- Whether an interrupt comes at an entry. -/
def ScheduledInterrupt.comes (interrupt : ScheduledInterrupt) (entry : Nat) (status : Flags) :
    Bool :=
  interrupt.at? = some entry ||
    (interrupt.every ≠ 0 && entry % interrupt.every = 0 && status.contains CpuStatus.ie)

/-- Pictures that were shown: each write of the origin register is one. -/
structure Screen where
  /-- Pictures shown. -/
  count : Nat
  /-- Number of the first picture to keep. -/
  keepFrom : Nat
  /-- The pictures kept. -/
  kept : Array Framebuffer
  /-- The bench is switched off once more pictures than this were shown. -/
  limit : Option Nat

/-- A screen nobody looks at. -/
def Screen.unwatched : Screen := ⟨0, 0, #[], none⟩

/-- A screen to show `limit + 1` pictures, the last `last` of which are kept. -/
def Screen.watched (limit last : Nat) : Screen := ⟨0, limit + 1 - last, #[], some limit⟩

/-- What becomes of text sent to the log window. -/
inductive ViewerMode where
  /-- It is shown, line by line. -/
  | shown
  /-- The register writes are written down. -/
  | raw
  deriving DecidableEq, Repr

/-- How a program failed on the bench. -/
inductive Failure where
  /-- It stopped by itself. -/
  | stopped (reason : Stop)
  /-- It waits for something that will never come. -/
  | stuck
  /-- It reads the same value for ever; nothing is told of what it did. -/
  | deadlocked
  /-- The bench was switched off. -/
  | switchedOff
  deriving DecidableEq, Repr

end Bench

open Bench

/-- An emulated console. -/
structure Machine where
  registers : RegisterFile
  /-- Values to be read from a register before its own. -/
  feeds : List (Register × List UInt32)
  /-- The transfer engine, if it is modelled. -/
  transfers : Option TransferModel
  /-- The signal processor's 8 KB. -/
  spMemory : ByteArray
  rdram : Rdram
  status : Flags
  cause : UInt32
  fence : Bool
  trace : Trace
  viewerMode : ViewerMode
  /-- Bytes of a line that is not yet ended. -/
  viewerLine : ByteArray
  schedule : List ScheduledInterrupt
  /-- Entries into reduced power. -/
  entries : Nat
  /-- Framebuffers given to draw functions. -/
  drawings : Nat
  screen : Screen

namespace Machine

/-- Bytes of memory inside the signal processor. -/
def spMemorySize : Nat := 0x2000

/-- A machine that was just switched on: everything zero. -/
def fresh : Machine where
  registers := .zero
  feeds := []
  transfers := none
  spMemory := Rdram.zeros spMemorySize
  rdram := .zero
  status := 0
  cause := 0
  fence := Fence.unsignaled
  trace := .empty
  viewerMode := .shown
  viewerLine := ByteArray.empty
  schedule := []
  entries := 0
  drawings := 0
  screen := .unwatched

/-- Write down an event. -/
def record (machine : Machine) (event : TraceEvent) : Machine :=
  let trace := machine.trace
  let machine := { machine with trace := .empty }
  { machine with trace := trace.record event }

/-! ### Reading registers -/

/-- Feed a register: these values come behind those it is fed already. -/
def feed (machine : Machine) (register : Register) (values : List UInt32) : Machine :=
  let waiting := (machine.feeds.lookup register).getD []
  { machine with
    feeds := (register, waiting ++ values) :: machine.feeds.filter (·.1 ≠ register) }

/-- Take the next value that a register is fed, if any. -/
def takeFeed (machine : Machine) (register : Register) : Machine :=
  match machine.feeds.lookup register with
  | some (value :: rest) =>
      { machine with
        registers := machine.registers.set register value
        feeds := (register, rest) :: machine.feeds.filter (·.1 ≠ register) }
  | _ => machine

/-- Let the transfer engine answer, if the register is one of its own. -/
def lookAtTransfers (machine : Machine) (register : Register) : Machine :=
  match machine.transfers with
  | none => machine
  | some model =>
      match model.shown? register with
      | none => machine
      | some value =>
          { machine with
            registers := machine.registers.set register value
            transfers := some model.look }

/-- Equal reads in a row that make a deadlock. -/
def deadlockReads : Nat := 2000

/-- Read a register. -/
def readRegister (machine : Machine) (register : Register) : Except Failure UInt32 × Machine :=
  let machine := (machine.takeFeed register).lookAtTransfers register
  let value := machine.registers.get register
  let machine := machine.record (.read register value)
  if deadlockReads ≤ machine.trace.lastCount then (.error .deadlocked, machine)
  else (.ok value, machine)

/-! ### Writing registers -/

/-- Copy the first row of a transfer, unless it would leave one of the memories. -/
def copyTransfer (machine : Machine) (direction : Direction) (length : UInt32) : Machine :=
  let count := (length &&& 0xFFF).toNat + 1
  let mem := (machine.registers.get SpRegister.memAddr).toNat % spMemorySize
  let dram := (machine.registers.get SpRegister.dramAddr).toNat
  if mem + count ≤ spMemorySize && Rdram.holds dram count then
    match direction with
    | .fromRdram =>
        { machine with
          spMemory := (machine.rdram.read dram count).copySlice 0 machine.spMemory mem count }
    | .toRdram =>
        { machine with
          rdram := machine.rdram.write dram (machine.spMemory.extract mem (mem + count)) }
  else machine

/-- Accept a transfer whose length was just written. -/
def startTransfer (machine : Machine) (direction : Direction) (length : UInt32) : Machine :=
  match machine.transfers with
  | none => machine
  | some model =>
      let machine := { machine with
        transfers := some { model with inFlight := min (model.inFlight + 1) 2 } }
      let machine := if 2 ≤ model.inFlight then machine.record .overrun else machine
      machine.copyTransfer direction length

/-- The first bytes in the log window's buffer. -/
def viewerBytes (machine : Machine) (count : Nat) : List UInt8 :=
  Viewer.bytesOf (fun slot => machine.registers.get (ViewerRegister.buffer slot)) count

/-- Show bytes in the log window, and write down each line that is ended. -/
def showBytes (machine : Machine) (bytes : List UInt8) : Machine :=
  bytes.foldl (fun machine byte =>
    if byte = 10 then
      let text := (String.fromUTF8? machine.viewerLine).getD ""
      { machine.record (.line text) with viewerLine := ByteArray.empty }
    else
      { machine with viewerLine := machine.viewerLine.push byte }) machine

/-- Place in RDRAM of a cached or uncached address. -/
def rdramPlace (vaddr : UInt32) : Nat := (PhysAddr.ofAddress vaddr).word.toNat

/-- Count a picture, and keep it if somebody wants to see it. -/
def showPicture (machine : Machine) (origin : UInt32) : Machine :=
  let screen := machine.screen
  let kept :=
    if screen.limit.isSome && screen.keepFrom ≤ screen.count then
      screen.kept.push (machine.rdram.frame (rdramPlace origin))
    else screen.kept
  { machine with screen := { screen with count := screen.count + 1, kept } }

/-- Write a register. -/
def writeRegister (machine : Machine) (register : Register) (value : UInt32) : Machine :=
  let store (machine : Machine) (register : Register) (value : UInt32) : Machine :=
    { machine with registers := machine.registers.set register value }
  if register.block = .viewer && machine.viewerMode = .shown then
    let machine := store machine register value
    if register = ViewerRegister.length then
      machine.showBytes (machine.viewerBytes value.toNat)
    else machine
  else
    let machine := machine.record (.write register value)
    if register = MiRegister.mask then
      store machine register (LineMask.apply (machine.registers.get register) value)
    else if register = ViRegister.vCurrent then
      let machine := store machine register value
      let intr := machine.registers.get MiRegister.intr
      store machine MiRegister.intr (Flags.without intr InterruptSource.vi.line)
    else if register = ViRegister.origin then
      (store machine register value).showPicture value
    else if register = SpRegister.readLen then
      (store machine register value).startTransfer .fromRdram value
    else if register = SpRegister.writeLen then
      (store machine register value).startTransfer .toRdram value
    else store machine register value

/-- The word whose bytes are those of `word` in reverse. -/
def reverseBytes (word : UInt32) : UInt32 :=
  let middle : UInt32 := 0xFF00
  (word <<< 24) ||| ((word &&& middle) <<< 8) ||| ((word >>> 8) &&& middle) ||| (word >>> 24)

/-- Store a doubleword, most significant byte first. Low RDRAM is a block of registers here, and the
two words read with their low byte first; there is no cache, so both windows do the same. -/
def storeDoubleword (machine : Machine) (vaddr : UInt32) (word : UInt64) : Machine :=
  let place := rdramPlace vaddr
  let first : Register := ⟨.ram, place⟩
  let machine := machine.record (.doubleword first word)
  if place + 8 ≤ 4 * RegisterFile.blockWords then
    { machine with
      registers := (machine.registers.set first (reverseBytes (word >>> 32).toUInt32)).set
        (first.shift 1) (reverseBytes word.toUInt32) }
  else
    let bytes := (List.range 8).map (doublewordByte word)
    { machine with rdram := machine.rdram.write place ⟨bytes.toArray⟩ }

/-! ### Commands -/

/-- Carry out a command, without interrupts. -/
def execute (machine : Machine) : (command : Command) → Except Failure command.Answer × Machine
  | .getStatus => (.ok machine.status, machine)
  | .setStatus status => (.ok (), { machine.record (.status status) with status })
  | .getCause => (.ok machine.cause, machine)
  | .cache operation vaddr => (.ok (), machine.record (.cache operation vaddr))
  | .read register => machine.readRegister register
  | .write register value => (.ok (), machine.writeRegister register value)
  | .storeDoubleword vaddr word => (.ok (), machine.storeDoubleword vaddr word)
  | .setFence signaled => (.ok (), { machine with fence := signaled })
  | .getFence => (.ok machine.fence, machine)
  | .loadFrame vaddr =>
      (.ok (machine.rdram.frame (rdramPlace vaddr)),
        { machine with drawings := machine.drawings + 1 })
  | .storePixels vaddr drawing =>
      (.ok (), { machine with rdram := machine.rdram.paint (rdramPlace vaddr) drawing })
  | .fillStaging vaddr color =>
      let page := Rdram.repeated color.bits (Rdram.pageSize / 2) ByteArray.empty
      (.ok (), { machine with rdram := machine.rdram.write (rdramPlace vaddr) page })

end Machine

end ColdBoot
