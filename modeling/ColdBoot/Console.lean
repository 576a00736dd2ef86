import ColdBoot.Beacon
import ColdBoot.Dma.Pi
import ColdBoot.Handoff
import ColdBoot.Interrupt.Arming
import ColdBoot.Video.Output

/-! # The console

From the loader's handoff to a running picture, and frame after frame from there on. The exception
vector is patched with interrupts masked; the video output is complete and both framebuffers are
clear before the video interrupt is let through.

* **`Console.boot`** – the way to a running picture;
* **`Console.frame`** – clear, draw, wait for vertical blank, show;
* **`Console.run`** – the first frames of the endless loop. -/

namespace ColdBoot

/-- A booted console. -/
structure Console where
  video : Video
  params : BootParams
  interrupts : Interrupts .armed
  /-- Frames shown since boot, modulo 2³². -/
  frameCount : UInt32

/-- A draw function: it sees the framebuffer it draws into and the frame's number, and may leave for
good. Besides its drawing it gives back a result. -/
abbrev DrawFunction (ρ : Type) := Framebuffer → UInt32 → Except Stop (Drawing × ρ)

namespace Console

variable {ρ σ : Type}

/-- What is logged about the console. -/
def bootRecord (params : BootParams) (platform : Platform) : LogRecord where
  level := .info
  target := "n64rt::console"
  pieces := params.resetType.pieces ++ [" "] ++ params.romType.pieces ++
    [" boot, ", platform.name, ", ", toString (params.memSize / 1024).toNat, "KB RDRAM"]

/-- Bring the console from the loader's handoff to a running picture of the clear colour. -/
def boot (config : Config) (memory : FrameMemory) (slot : VectorSlot) (entry : Trampoline)
    (color : Color) : Program Console := do
  Beacon.mark config .entry
  let installed ← Interrupts.fresh.install config entry slot
  Beacon.mark config .trampoline
  let params ← BootParams.read
  let platform ← Platform.detect config params
  (bootRecord params platform).emit config.logFilter
  let video ← Video.bringUp config memory platform color
  Beacon.mark config .video
  let interrupts ← installed.armVideo config
  Beacon.mark config .armed
  return { video, params, interrupts, frameCount := 0 }

/-- Let a draw function draw into a framebuffer. -/
def draw (draw : DrawFunction ρ) (vaddr number : UInt32) : Program ρ := do
  let before ← Program.perform (.loadFrame vaddr)
  match draw before number with
  | .error reason => .stop reason
  | .ok (drawing, result) => do
      Program.perform (.storePixels vaddr drawing)
      return result

/-- One frame: clear the rendered framebuffer, draw into it, and show it at vertical blank. -/
def frame (config : Config) (console : Console) (function : DrawFunction ρ) :
    Program (Console × ρ) := do
  console.video.clearTarget config
  let result ← draw function console.video.target console.frameCount
  Video.vblankWait
  let video ← console.video.swapBuffers
  Video.vblankEnd
  return ({ console with video, frameCount := console.frameCount + 1 }, result)

/-- So many frames, each drawn by a function of a state that it also changes. -/
def frames (config : Config) (function : σ → DrawFunction σ) :
    Nat → Console → σ → Program (Console × σ)
  | 0, console, state => return (console, state)
  | count + 1, console, state => do
      let (console, state) ← console.frame config (function state)
      frames config function count console state

/-- The first `count` frames of the endless loop. -/
def run (config : Config) (console : Console) (function : σ → DrawFunction σ) (state : σ)
    (count : Nat) : Program (Console × σ) := do
  Beacon.mark config .loop
  frames config function count console state

/-- What is logged before the console gives up. -/
def haltRecord (console : Console) : LogRecord where
  level := .error
  target := "n64rt::console"
  pieces := ["halted after ", toString console.frameCount.toNat, " frames"]

/-- Give up for good. -/
def halt (config : Config) (console : Console) : Program Unit := do
  Beacon.mark config .halt
  console.haltRecord.emit config.logFilter
  Cpu.halt

end Console

end ColdBoot
