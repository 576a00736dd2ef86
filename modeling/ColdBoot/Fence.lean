import ColdBoot.Idle

/-! # The vblank fence

One flag between the video interrupt, which raises it, and the render loop, which waits for it and
lowers it. A vertical blank that comes twice before the flag is lowered counts once. -/

namespace ColdBoot.Fence

/-- The flag before anything happened. -/
def unsignaled : Bool := false

/-- Raise the flag. -/
def signal : Program Unit := Program.perform (.setFence true)

/-- Whether the flag is raised, without waiting. -/
def isSignaled : Program Bool := Program.perform .getFence

/-- Wait until the flag is raised. -/
def wait : Program Unit := do
  let _ ← Idle.spin .getFence id

/-- Lower the flag. -/
def clear : Program Unit := Program.perform (.setFence false)

end ColdBoot.Fence
