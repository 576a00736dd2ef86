import ColdBoot.Proofs.Rectangle

/-! # Clipped rectangles

Painting never leaves the framebuffer: whatever the coordinates and the sides are, no sum and no
product of a rectangle is too large and no place lies outside, and the rectangle is cut off where
the picture ends.

* **`Drawing.fillRect_eq`**, **`Drawing.setPixel_eq`** – painting comes to a drawing;
* **`Drawing.fillRect_clips`** – which sets the pixels of the rectangle that are in the picture. -/

namespace ColdBoot

open Framebuffer

namespace Drawing

variable {x y left right row : UInt64}

/-- A place is found for each column and the end of a row. -/
theorem exists_place (inColumns : x.toNat ≤ width) (inRows : y.toNat < height) :
    ∃ p, place x y = .ok p ∧ p.toNat = y.toNat * width + x.toNat := by
  unfold width height at *
  have times : y.toNat * (320 : UInt64).toNat = y.toNat * 320 := rfl
  have product : (y * 320).toNat = y.toNat * 320 := by
    rw [UInt64.toNat_mul, times]
    omega
  have fits : y.toNat * (320 : UInt64).toNat < UInt64.size := by
    rw [times, UInt64.size]
    omega
  have sum : (y * 320).toNat + x.toNat < UInt64.size := by
    rw [product, UInt64.size]
    omega
  have multiplied : Checked.mulSize y (.ofNat 320) = .ok (y * 320) := if_pos fits
  have added : Checked.addSize (y * 320) x = .ok (y * 320 + x) := if_pos sum
  refine ⟨y * 320 + x, ?_, ?_⟩
  · unfold place width
    rw [multiplied]
    exact added
  · rw [UInt64.toNat_add, Nat.mod_eq_of_lt sum, product]

/-- **One pixel** comes to a drawing. -/
theorem setPixel_eq (x y : UInt64) (color : Color) :
    setPixel x y color = .ok (point x y color) := by
  by_cases inside : x.toNat < width ∧ y.toNat < height
  · have checked : x < .ofNat width ∧ y < .ofNat height := inside
    obtain ⟨p, found, value⟩ := exists_place inside.1.le inside.2
    have within : p.toNat < pixelCount := by
      rw [value]
      exact (pixelIndex x.toNat y.toNat inside.1 inside.2).isLt
    have stored : storeAt p color = .ok [⟨⟨p.toNat, within⟩, color.bits⟩] := dif_pos within
    rw [setPixel, if_pos checked, found, point, pixel, dif_pos inside]
    simp only [pixelIndex, ← value]
    exact stored
  · have checked : ¬ (x < .ofNat width ∧ y < .ofNat height) := inside
    rw [setPixel, if_neg checked, point, pixel, dif_neg inside]
    rfl

/-- The pixels of a row, from a column on, lie side by side. -/
theorem flatMap_pixel {column line : Nat} (color : Color) (low : line < height) (count : Nat)
    (narrow : column + count ≤ width) (start : Nat) (eq : start = line * width + column)
    (fits : start + count ≤ pixelCount) :
    (List.range' column count).flatMap (fun k => pixel k line color) =
      List.ofFn fun k : Fin count => ⟨⟨start + k, by have := k.isLt; omega⟩, color.bits⟩ := by
  induction count generalizing column start with
  | zero => rfl
  | succ count ih =>
    have here : column < width := by omega
    rw [List.range'_succ, List.flatMap_cons, List.ofFn_succ, pixel, dif_pos ⟨here, low⟩,
      ih (by omega) (start + 1) (by omega) (by omega)]
    subst eq
    simp only [Fin.val_succ, Nat.add_assoc, Nat.add_comm 1]
    rfl

/-- The stores of one row. -/
theorem fillRow_eq (ordered : left.toNat ≤ right.toNat) (narrow : right.toNat ≤ width)
    (low : row.toNat < height) (color : Color) : fillRow left right row color =
      .ok ((List.range' left.toNat (right.toNat - left.toNat)).flatMap fun column =>
        pixel column row.toNat color) := by
  obtain ⟨start, foundStart, startValue⟩ := exists_place (ordered.trans narrow) low
  obtain ⟨stop, foundStop, stopValue⟩ := exists_place narrow low
  have forward : ¬ stop < start := by
    rw [UInt64.lt_iff_toNat_lt]
    omega
  have within : stop.toNat ≤ pixelCount := by
    unfold pixelCount width height at *
    omega
  have count : stop.toNat - start.toNat = right.toNat - left.toNat := by omega
  have stored := flatMap_pixel color low (stop.toNat - start.toNat) (by omega) start.toNat
    startValue (by omega)
  rw [fillRow, foundStart, foundStop, ← count, stored]
  exact (if_neg forward).trans (dif_pos within)

/-- The rows of a rectangle, each in its turn. -/
theorem fillRows_eq (ordered : left.toNat ≤ right.toNat) (narrow : right.toNat ≤ width) (rows : Nat)
    (low : rows ≤ height - row.toNat) (color : Color) :
    fillRows left right color row rows = .ok ((List.range' row.toNat rows).flatMap fun line =>
      (List.range' left.toNat (right.toNat - left.toNat)).flatMap fun column =>
        pixel column line color) := by
  induction rows generalizing row with
  | zero => rfl
  | succ rows ih =>
    have here : row.toNat < height := by omega
    have next : (row + 1).toNat = row.toNat + 1 := by
      unfold height at here
      rw [UInt64.toNat_add, UInt64.toNat_one]
      omega
    rw [fillRows, fillRow_eq ordered narrow here color, ih (by omega), next, List.range'_succ,
      List.flatMap_cons]
    rfl

/-- **A rectangle** comes to a drawing. -/
theorem fillRect_eq (x y w h : UInt64) (color : Color) :
    fillRect x y w h color = .ok (rect x y w h color) := by
  have right : (clip (saturatingAdd x w) (.ofNat width)).toNat =
      min (saturatingAdd x w).toNat width := toNat_clip _ _
  have bottom : (clip (saturatingAdd y h) (.ofNat height)).toNat =
      min (saturatingAdd y h).toNat height := toNat_clip _ _
  rw [fillRect, rect, bottom, ← right]
  by_cases empty : clip (saturatingAdd x w) (.ofNat width) ≤ x
  · rw [if_pos empty, Nat.sub_eq_zero_of_le (UInt64.le_iff_toNat_le.1 empty)]
    exact congrArg Except.ok (List.flatMap_eq_nil_iff.2 fun _ _ => rfl).symm
  · rw [if_neg empty]
    rw [UInt64.le_iff_toNat_le, Nat.not_le] at empty
    exact fillRows_eq empty.le (right.trans_le (Nat.min_le_right _ _)) _ (by omega) color

/-- A square of one pixel is that pixel. -/
theorem rect_one (x y : UInt64) (color : Color) : rect x y 1 1 color = point x y color := by
  rw [point]
  by_cases inside : x.toNat < width ∧ y.toNat < height
  · have across : min (x.toNat + 1) width - x.toNat = 1 := by omega
    have down : min (y.toNat + 1) height - y.toNat = 1 := by omega
    rw [rect, min_toNat_saturatingAdd x 1 (by decide), min_toNat_saturatingAdd y 1 (by decide),
      UInt64.toNat_one, across, down]
    simp only [List.range'_one, List.flatMap_singleton]
  · rw [pixel, dif_neg inside, List.eq_nil_iff_forall_not_mem]
    intro s member
    obtain ⟨-, left, right, top, bottom⟩ := mem_rect_iff.1 member
    obtain ⟨narrow, low, -⟩ := exists_pixelIndex s.index
    rw [UInt64.toNat_one] at right bottom
    omega

end Drawing

/-- The pixel in a column of a row. -/
def Framebuffer.pixel (fb : Framebuffer) (column : Fin width) (row : Fin height) : UInt16 :=
  fb.pixels[Drawing.pixelIndex column row column.isLt row.isLt]

/-- **Rectangles are clipped.** Whatever its coordinates and its sides are, filling a rectangle
comes to a drawing, and this sets the pixels of the rectangle that are in the picture to the colour
and leaves the others; coordinates and sides are added as natural numbers. Setting one pixel is
filling a square of one pixel. -/
theorem Drawing.fillRect_clips (x y w h : UInt64) (color : Color) :
    (∃ drawing, fillRect x y w h color = .ok drawing ∧
      ∀ (fb : Framebuffer) (column : Fin width) (row : Fin height),
        (fb.paint drawing).pixel column row =
          if (x.toNat ≤ column ∧ column < x.toNat + w.toNat) ∧
              y.toNat ≤ row ∧ row < y.toNat + h.toNat then color.bits
          else fb.pixel column row) ∧
    setPixel x y color = fillRect x y 1 1 color := by
  refine ⟨⟨rect x y w h color, fillRect_eq x y w h color, fun fb column row => ?_⟩, ?_⟩
  · rw [Framebuffer.pixel, pixels_paint_rect]
    exact if_congr (inside_pixelIndex_iff column.isLt row.isLt) rfl rfl
  · rw [setPixel_eq, fillRect_eq, rect_one]

end ColdBoot
