import ColdBoot.Fault
import ColdBoot.Video.Framebuffer

/-! # Painting with checked arithmetic

A framebuffer is an array, and painting computes places in it with 64-bit sizes. A sum or a product
may not fit its word, and a place may lie outside the array: either is a fault. Everything outside the
picture is clipped away.

* **`Drawing.setPixel`** – one pixel, nothing outside the picture;
* **`Drawing.fillRect`** – a rectangle, clipped to the picture and filled row by row. -/

namespace ColdBoot.Drawing

open Framebuffer

/-- Where column `x` of row `y` is kept. -/
def place (x y : UInt64) : Except Fault UInt64 := do
  Checked.addSize (← Checked.mulSize y (.ofNat width)) x

/-- One store at a place. -/
def storeAt (place : UInt64) (color : Color) : Except Fault Drawing :=
  if inside : place.toNat < pixelCount then .ok [⟨⟨place.toNat, inside⟩, color.bits⟩]
  else .error (.indexOutside pixelCount place.toNat)

/-- One store at each place from `start` up to `stop`. -/
def storeStretch (start stop : UInt64) (color : Color) : Except Fault Drawing :=
  if stop < start then .error (.stretchReversed start.toNat stop.toNat)
  else if inside : stop.toNat ≤ pixelCount then
    .ok (List.ofFn fun k : Fin (stop.toNat - start.toNat) =>
      ⟨⟨start.toNat + k, by have := k.isLt; omega⟩, color.bits⟩)
  else .error (.stretchOutside pixelCount stop.toNat)

/-- One pixel. -/
def setPixel (x y : UInt64) (color : Color) : Except Fault Drawing := do
  if x < .ofNat width ∧ y < .ofNat height then storeAt (← place x y) color else return []

/-- The columns from `left` up to `right` of one row. -/
def fillRow (left right row : UInt64) (color : Color) : Except Fault Drawing := do
  storeStretch (← place left row) (← place right row) color

/-- The columns from `left` up to `right` of so many rows from `row` on. -/
def fillRows (left right : UInt64) (color : Color) (row : UInt64) : Nat → Except Fault Drawing
  | 0 => return []
  | rows + 1 => do
      return (← fillRow left right row color) ++ (← fillRows left right color (row + 1) rows)

/-- The sum of two sizes, or the largest size if they have none. -/
def saturatingAdd (a b : UInt64) : UInt64 := if a ≤ a + b then a + b else 0xFFFFFFFFFFFFFFFF

/-- An end, but not past a limit. -/
def clip (stop limit : UInt64) : UInt64 := if stop ≤ limit then stop else limit

theorem toNat_clip (stop limit : UInt64) :
    (clip stop limit).toNat = min stop.toNat limit.toNat := by
  rw [clip, apply_ite UInt64.toNat, Nat.min_def]
  rfl

/-- A filled rectangle, clipped to the picture. -/
def fillRect (x y w h : UInt64) (color : Color) : Except Fault Drawing :=
  let right := clip (saturatingAdd x w) (.ofNat width)
  let bottom := clip (saturatingAdd y h) (.ofNat height)
  if right ≤ x then return [] else fillRows x right color y (bottom.toNat - y.toNat)

end ColdBoot.Drawing
