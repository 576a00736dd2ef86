import ColdBoot.Video.Color

/-! # Framebuffers and drawings

The picture is 320 × 240 pixels, kept row by row. A **drawing** is the list of pixel stores that it
makes, in order; `Framebuffer.paint` is its effect. -/

namespace ColdBoot

namespace Framebuffer

/-- Pixels in a row. -/
def width : Nat := 320

/-- Rows. -/
def height : Nat := 240

/-- Pixels in a framebuffer. -/
def pixelCount : Nat := width * height

/-- Bytes in a framebuffer. -/
def byteSize : UInt64 := 153600

end Framebuffer

/-- A picture. -/
structure Framebuffer where
  pixels : Vector UInt16 Framebuffer.pixelCount
  deriving DecidableEq

/-- One store into a framebuffer. -/
structure PixelStore where
  index : Fin Framebuffer.pixelCount
  value : UInt16
  deriving DecidableEq, Repr

/-- The stores of a drawing, in order. -/
abbrev Drawing := List PixelStore

namespace Framebuffer

/-- A framebuffer of one colour. -/
def uniform (color : Color) : Framebuffer := ⟨Vector.replicate pixelCount color.bits⟩

/-- A framebuffer as it is before anything was drawn: all bits clear. -/
def blank : Framebuffer := uniform ⟨0⟩

/-- The framebuffer after one store. -/
def store (fb : Framebuffer) (s : PixelStore) : Framebuffer := ⟨fb.pixels.set s.index s.value⟩

/-- The framebuffer after a drawing. -/
def paint (fb : Framebuffer) (drawing : Drawing) : Framebuffer := drawing.foldl store fb

@[simp] theorem paint_nil (fb : Framebuffer) : fb.paint [] = fb := rfl

@[simp] theorem paint_cons (fb : Framebuffer) (s : PixelStore) (drawing : Drawing) :
    fb.paint (s :: drawing) = (fb.store s).paint drawing := rfl

@[simp] theorem paint_append (fb : Framebuffer) (first second : Drawing) :
    fb.paint (first ++ second) = (fb.paint first).paint second :=
  List.foldl_append

end Framebuffer

end ColdBoot
