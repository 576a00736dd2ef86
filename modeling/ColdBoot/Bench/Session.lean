import ColdBoot.Bench.Playback
import ColdBoot.Square

/-! # Bench sessions

A **`Session`** is a bench together with what was brought up on it so far: interrupts, a video
output, a console. Its operations run one program each and keep what the program gives back; an
operation on a part that is not there yet is refused.

* **`Session.run`** – run a program on the session's bench;
* **`Session.bracketed`** – run operations in reduced power, which is left however they end;
* **`Session.runConsole`** – let a console loop until its draw function leaves. -/

namespace ColdBoot

/-- How far interrupts have come in a session. -/
inductive InterruptProgress where
  | absent
  | fresh (interrupts : Interrupts .uninstalled)
  | installed (interrupts : Interrupts .installed)
  | armed (interrupts : Interrupts .armed)

/-- A bench and what was brought up on it. -/
structure Session where
  config : Config
  machine : Machine
  memory : FrameMemory
  interrupts : InterruptProgress
  video : Option Video
  console : Option Console

/-- A part of a session. -/
inductive SessionPart where
  | interrupts
  | video
  | console
  | memory
  deriving DecidableEq, Repr

/-- Why an operation came to nothing. -/
inductive SessionError where
  /-- The request for the operation makes no sense; the text names the part that does not. -/
  | malformed (field : String)
  /-- The operation needs a part that is not there, or not yet as far. -/
  | missing (part : SessionPart)
  /-- Its program failed. -/
  | failed (failure : Bench.Failure)
  deriving DecidableEq, Repr

/-- Operations of a session. -/
abbrev SessionM := ExceptT SessionError (StateM Session)

namespace Session

variable {α : Type}

/-- Where picture memory lies unless it is moved. -/
def defaultMemory : FrameMemory := ⟨0x80200000, 0x80225800, 0x80100000⟩

/-- A session on a bench, with nothing brought up. -/
def start (config : Config) (machine : Machine) : Session :=
  { config, machine, memory := defaultMemory, interrupts := .absent, video := none, console := none }

/-! ### Running programs -/

/-- Run something on the bench, whatever comes of it. -/
def attempt (f : Machine → Except Bench.Failure α × Machine) : SessionM (Except Bench.Failure α) :=
  modifyGet fun session =>
    let (result, machine) := f session.machine
    (result, { session with machine })

/-- A result, or the end of the operation. -/
def orFail : Except Bench.Failure α → SessionM α
  | .ok value => return value
  | .error failure => throw (.failed failure)

/-- Run a program. -/
def run (program : Program α) : SessionM α := do
  orFail (← attempt fun machine => machine.run program)

/-- A checked computation. -/
def checked (value : Except Fault α) : SessionM α := run (.ofExcept value)

/-- Change the bench by hand. -/
def adjust (f : Machine → Machine) : SessionM Unit :=
  modify fun session => { session with machine := f session.machine }

/-- Run an operation in reduced power, which is left however the operation ends. -/
def bracketed (body : SessionM α) : SessionM α := do
  run Idle.enter
  let value ← tryCatch body fun error => do
    let _ ← attempt fun machine => machine.run Idle.leave
    throw error
  run Idle.leave
  return value

/-- Run a program whose text for the log window is written down as register writes. -/
def runRaw (program : Program Unit) : SessionM Unit := do
  adjust fun machine => { machine with viewerMode := .raw }
  run program
  adjust fun machine => { machine with viewerMode := .shown }

/-- Run a wait on an engine that is played back, with limited looks. -/
def playBack (program : Program α) (statusWord : Nat → UInt32) (slotOccupied : Nat → Bool)
    (limit : Nat) : SessionM (α × Playback) := do
  let (result, playback) ← modifyGet fun session =>
    let (result, playback) := Playback.run program
      { machine := session.machine, statusWord, slotOccupied, statusLooks := 0, slotLooks := 0,
        limit }
    ((result, { playback with machine := .fresh }),
      { session with machine := playback.machine })
  return (← orFail result, playback)

/-! ### Memory -/

/-- Move picture memory: two framebuffers one behind the other, and the staging page. Both places
have to lie in RDRAM. -/
def moveMemory (framebuffers staging : UInt32) : SessionM Unit := do
  let frame := Framebuffer.byteSize
  let lies (vaddr : UInt32) (bytes : UInt64) : Bool :=
    cachedWindow ≤ vaddr && Rdram.holds (vaddr - cachedWindow).toNat bytes.toNat
  if lies framebuffers (2 * frame) && lies staging pageSize then
    modify fun session =>
      { session with memory := ⟨framebuffers, framebuffers + frame.toUInt32, staging⟩ }
  else throw (.missing .memory)

/-- Pixels of a framebuffer. -/
def framePixels (session : Session) (vaddr : UInt32) : Array UInt16 :=
  (session.machine.rdram.frame (Machine.rdramPlace vaddr)).pixels.toArray

/-- Halfwords of the staging page. -/
def stagingPixels (session : Session) : Array UInt16 :=
  (session.machine.rdram.halfwords (Machine.rdramPlace session.memory.staging)
    (pageSize.toNat / 2)).toArray

/-! ### Interrupts -/

/-- Begin with interrupts. -/
def freshInterrupts : SessionM Unit :=
  modify fun session => { session with interrupts := .fresh .fresh }

/-- Patch the exception vector, and tell where it is fetched from. -/
def installInterrupts (entry : Trampoline) : SessionM UInt32 := do
  let session ← get
  match session.interrupts with
  | .fresh interrupts =>
      let slot := VectorSlot.generalException
      let interrupts ← run (interrupts.install session.config entry slot)
      modify fun session => { session with interrupts := .installed interrupts }
      return slot.cached
  | _ => throw (.missing .interrupts)

/-- Let the video interrupt through. -/
def armInterrupts : SessionM Unit := do
  let session ← get
  match session.interrupts with
  | .installed interrupts =>
      let interrupts ← run (interrupts.armVideo session.config)
      modify fun session => { session with interrupts := .armed interrupts }
  | _ => throw (.missing .interrupts)

/-- The enabled lines, as the session's interrupts see them. -/
def enabledLines : SessionM Flags := do
  match (← get).interrupts with
  | .absent => throw (.missing .interrupts)
  | _ => run Lines.enabled

/-! ### Video -/

/-- The video output in use: the console's, or else the one brought up alone. -/
def theVideo : SessionM Video := do
  let session ← get
  match session.console.map (·.video) <|> session.video with
  | some video => return video
  | none => throw (.missing .video)

/-- Bring up a video output alone. -/
def bringUpVideo (platform : Platform) (color : Color) : SessionM Unit := do
  let session ← get
  let video ← run (Video.bringUp session.config session.memory platform color)
  modify fun session => { session with video := some video }

/-- Show the rendered framebuffer of the video output in use. -/
def swapBuffers : SessionM Unit := do
  let video ← run (← theVideo).swapBuffers
  modify fun session =>
    match session.console with
    | some console => { session with console := some { console with video } }
    | none => { session with video := some video }

/-! ### Console -/

/-- The console. -/
def theConsole : SessionM Console := do
  match (← get).console with
  | some console => return console
  | none => throw (.missing .console)

/-- Boot a console. -/
def bootConsole (entry : Trampoline) (color : Color) : SessionM Unit := do
  let session ← get
  let console ← run
    (Console.boot session.config session.memory .generalException entry color)
  modify fun session => { session with console := some console }

/-- One frame with a drawing for its number, which is given back. -/
def frame (draw : UInt32 → Drawing) : SessionM UInt32 := do
  let console ← theConsole
  let config := (← get).config
  let (console, number) ← run (console.frame config fun _ number => .ok (draw number, number))
  modify fun session => { session with console := some console }
  return number

/-- Let the console loop until its draw function has drawn `count` frames and leaves at the next one.
The console is gone then. Gives back the numbers of the frames that were to be drawn, and how the
loop ended. -/
def runConsole (draw : UInt32 → Drawing) (count : Nat) :
    SessionM (List UInt32 × Bench.Failure) := do
  let console ← theConsole
  let session ← get
  let function (drawn : Nat) : DrawFunction Nat := fun _ number =>
    if drawn = count then .error .left else .ok (draw number, drawn + 1)
  let result ← attempt fun machine =>
    machine.run (console.run session.config function 0 (count + 1))
  let calls := (← get).machine.drawings - session.machine.drawings
  modify fun session => { session with console := none }
  let failure := match result with
    | .error failure => failure
    | .ok _ => .stopped .left
  if failure = .deadlocked then throw (.failed failure)
  return ((List.range calls).map fun n => console.frameCount + UInt32.ofNat n, failure)

/-! ### Demonstration -/

/-- Watch the bouncing square on a bench that is switched off after `frames` frames and one picture
more, of which the last ones are kept. -/
def watchSquare (config : Config) (machine : Machine) (entry : Trampoline) (frames last : Nat) :
    Bench.Failure × Machine :=
  let machine := { machine with screen := .watched frames last }
  match machine.run (Square.program config defaultMemory entry (frames + 1)) with
  | (.error failure, machine) => (failure, machine)
  | (.ok _, machine) => (.switchedOff, machine)

end Session

end ColdBoot
