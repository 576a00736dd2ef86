import ColdBoot.Console
import ColdBoot.Video.Painting

/-! # The bouncing square

A square of 24 pixels moves two columns and one row a frame over a dark blue ground, turns round at
the edges of the picture, and changes its shade of red with the frame number.

Its place is kept in sizes and its movement in signed sizes, with checked arithmetic but for the
movement itself, which stops at both ends of the sizes. -/

namespace ColdBoot

/-- Corner of the square, and its movement from frame to frame. -/
structure Square where
  x : UInt64
  y : UInt64
  dx : Int64
  dy : Int64
  deriving DecidableEq, Repr

namespace Square

/-- Length of a side. -/
def side : UInt64 := 24

/-- Colour of the ground. -/
def background : Color := .rgb 0 0 8

/-- The square before the first frame. -/
def start : Square := { x := 0, y := 0, dx := 2, dy := 1 }

/-- Colour of the square in a frame. -/
def color (number : UInt32) : Color := .rgb (number / 2 % 32).toUInt8 31 16

/-- Movement along one direction, turned round at an edge that it leads to. The far edge is looked
at only where the near one does not turn it round. -/
def bounce (position extent : UInt64) (delta : Int64) : Except Fault Int64 := do
  if position = 0 ∧ delta < 0 then Checked.negSize delta
  else if extent ≤ (← Checked.addSize position side) ∧ 0 < delta then Checked.negSize delta
  else return delta

/-- The size that is `delta` away, or the nearest one where there is none. -/
def saturatingMove (position : UInt64) (delta : Int64) : UInt64 :=
  let moved := position + delta.toUInt64
  if delta < 0 then if moved < position then moved else 0
  else if position ≤ moved then moved else 0xFFFFFFFFFFFFFFFF

/-- Position after a movement, kept inside the picture. -/
def glide (position extent : UInt64) (delta : Int64) : Except Fault UInt64 := do
  return min (saturatingMove position delta) (← Checked.subSize extent side)

/-- The square in the next frame. -/
def next (square : Square) : Except Fault Square := do
  let width := UInt64.ofNat Framebuffer.width
  let height := UInt64.ofNat Framebuffer.height
  let dx ← bounce square.x width square.dx
  let dy ← bounce square.y height square.dy
  let x ← glide square.x width dx
  let y ← glide square.y height dy
  return { x, y, dx, dy }

/-- Draw the square, and move it on. -/
def drawAndMove (square : Square) (number : UInt32) : Except Fault (Drawing × Square) := do
  let drawing ← Drawing.fillRect square.x square.y side side (color number)
  return (drawing, ← square.next)

/-- The same in a frame of a console. -/
def drawFunction (square : Square) : DrawFunction Square := fun _ number =>
  (square.drawAndMove number).mapError .fault

/-- Boot a console and let the square bounce for `count` frames. -/
def program (config : Config) (memory : FrameMemory) (entry : Trampoline) (count : Nat) :
    Program (Console × Square) := do
  let console ← Console.boot config memory .generalException entry background
  console.run config drawFunction start count

end Square

end ColdBoot
