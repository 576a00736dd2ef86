import ColdBoot.Dma.Sp
import ColdBoot.Interrupt.Dispatch
import ColdBoot.Log
import ColdBoot.Video.ClearPlan

/-! # Video output

Two framebuffers take turns: one is *displayed* by the video interface while the other is *rendered*
into. A frame clears the rendered one, draws into it, waits for vertical blank and swaps.

Clearing is the signal processor's work: one page of the clear colour is kept in its data memory and
copied out chunk by chunk. Before the copy the framebuffer's cache lines are dropped, since dirty
ones would overwrite it and stale ones hide it; before a swap they are written back.

* **`Video.bringUp`** – from nothing to a picture of the clear colour;
* **`Video.clearTarget`**, **`Video.setClearColor`**, **`Video.swapBuffers`** – the parts of a frame. -/

namespace ColdBoot

/-- Picture memory, by cached address. -/
structure FrameMemory where
  first : UInt32
  second : UInt32
  /-- The page that the clear colour is loaded from. -/
  staging : UInt32
  deriving DecidableEq, Repr

namespace FrameMemory

/-- The framebuffer of an index. -/
def framebuffer (memory : FrameMemory) (index : Fin 2) : UInt32 :=
  if index = 0 then memory.first else memory.second

end FrameMemory

/-- Bytes in the staging page: as many as data memory has. -/
def pageSize : UInt64 := Sp.dmemSize

/-- Half-line the video interface interrupts on. -/
def vblankLine : UInt32 := 2

/-- Place of the clear colour in data memory. -/
def patternPlace : UInt32 := 0

/-- The video output. -/
structure Video where
  memory : FrameMemory
  displaying : Fin 2
  platform : Platform
  deriving DecidableEq, Repr

namespace Video

/-! ### Which buffer -/

/-- The framebuffer that is not displayed. -/
def rendering (video : Video) : Fin 2 := video.displaying + 1

/-- Cached address of the framebuffer that may be drawn into. -/
def target (video : Video) : UInt32 := video.memory.framebuffer video.rendering

/-! ### Clearing -/

/-- Change the clear colour: fill the staging page and load it into data memory, which no clear may
be reading meanwhile. -/
def setClearColor (video : Video) (color : Color) : Program Unit := do
  let staging := video.memory.staging
  Program.perform (.fillStaging staging color)
  Cpu.writeBackRange staging pageSize.toUInt32
  let _ ← Sp.engine.waitIdle
  let descriptor ← Program.ofExcept (Sp.linear patternPlace (.ofAddress staging) pageSize)
  Sp.start descriptor .fromRdram
  let _ ← Sp.engine.waitIdle

/-- The chunks of one framebuffer. -/
def clearChunks : List ClearChunk :=
  (ClearPlan.ofTotal Framebuffer.byteSize pageSize).chunks (by decide)

/-- Copy the clear colour to one chunk, once another transfer may be started. -/
def clearChunk (config : Config) (base : PhysAddr) (chunk : ClearChunk) : Program Unit := do
  Sp.engine.waitQueue config
  let descriptor ← Program.ofExcept
    (Sp.linear patternPlace (base.offset chunk.offset.toUInt32) chunk.len)
  Sp.start descriptor .toRdram

/-- Fill one framebuffer with the clear colour. -/
def clearFramebuffer (config : Config) (video : Video) (index : Fin 2) : Program Unit := do
  let vaddr := video.memory.framebuffer index
  Cpu.invalidateDataRange vaddr Framebuffer.byteSize.toUInt32
  clearChunks.forM (clearChunk config (.ofAddress vaddr))
  let _ ← Sp.engine.waitIdle

/-- Fill the rendered framebuffer with the clear colour. -/
def clearTarget (config : Config) (video : Video) : Program Unit :=
  clearFramebuffer config video video.rendering

/-! ### Swapping -/

/-- Show the rendered framebuffer. Only vertical blank is a good time for it. -/
def swapBuffers (video : Video) : Program Video := do
  let next := video.rendering
  let vaddr := video.memory.framebuffer next
  Cpu.writeBackRange vaddr Framebuffer.byteSize.toUInt32
  Program.write ViRegister.origin (PhysAddr.ofAddress vaddr).word
  return { video with displaying := next }

/-- Wait for vertical blank. -/
def vblankWait : Program Unit := Fence.wait

/-- Lower the vblank flag once the frame's work is done. -/
def vblankEnd : Program Unit := Fence.clear

/-- Whether vertical blank has come. -/
def vblankTriggered : Program Bool := Fence.isSignaled

/-! ### Bringing up -/

/-- Write the register values of a profile. The control word comes last: nothing is shown before
every other register has its value. -/
def writeTiming (video : Video) (profile : TimingProfile) : Program Unit := do
  Program.write ViRegister.origin
    (PhysAddr.ofAddress (video.memory.framebuffer video.displaying)).word
  Program.write ViRegister.width (UInt32.ofNat Framebuffer.width)
  Program.write ViRegister.vIntr vblankLine
  Program.write ViRegister.vCurrent 0
  Program.write ViRegister.burst profile.burst
  Program.write ViRegister.vSync profile.vSync
  Program.write ViRegister.hSync profile.hSync
  Program.write ViRegister.hSyncLeap profile.hSyncLeap
  Program.write ViRegister.hVideo profile.hVideo
  Program.write ViRegister.vVideo profile.vVideo
  Program.write ViRegister.vBurst profile.vBurst
  let xScale ← Program.ofExcept profile.xScale
  Program.write ViRegister.xScale xScale
  let yScale ← Program.ofExcept profile.yScale
  Program.write ViRegister.yScale yScale
  let ctrl ← Program.ofExcept (profile.ctrl .resampleOnly)
  Program.write ViRegister.ctrl ctrl

/-- What is logged before the timing registers are written. -/
def timingRecord (platform : Platform) : LogRecord where
  level := .debug
  target := "n64rt::video"
  pieces := ["programming VI for ", platform.name]

/-- Blank the output, clear both framebuffers, and then show the first one. -/
def bringUp (config : Config) (memory : FrameMemory) (platform : Platform) (color : Color) :
    Program Video := do
  Program.write ViRegister.ctrl 0
  Fence.clear
  let video : Video := { memory, displaying := 0, platform }
  video.setClearColor color
  clearFramebuffer config video 0
  clearFramebuffer config video 1
  (timingRecord platform).emit config.logFilter
  video.writeTiming platform.profile
  return video

end Video

end ColdBoot
