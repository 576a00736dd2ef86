import ColdBoot.Video.Painting
import Mathlib.Data.Finset.Prod
import Mathlib.Data.Fintype.Card
import Mathlib.Order.Interval.Finset.Nat

/-! # Filled rectangles

A drawing is a list of stores, and a rectangle is one store for each of its pixels in the picture.

* **`Drawing.rect`**, **`Drawing.point`** – a rectangle, and one pixel, as drawings;
* **`Framebuffer.pixels_paint`** – what a drawing in one colour leaves;
* **`Drawing.mem_rect_iff`** – the stores of a rectangle;
* **`Framebuffer.pixels_paint_rect`** – so what a rectangle leaves;
* **`Drawing.card_inside`** – one in the picture has as many pixels as its sides say. -/

namespace ColdBoot

open Framebuffer

/-- A drawing in one colour sets the pixels that it stores, and no others. -/
theorem Framebuffer.pixels_paint {drawing : Drawing} {color : Color}
    (same : ∀ s ∈ drawing, s.value = color.bits) (fb : Framebuffer) (i : Fin pixelCount) :
    (fb.paint drawing).pixels[i] =
      if ∃ s ∈ drawing, s.index = i then color.bits else fb.pixels[i] := by
  induction drawing generalizing fb with
  | nil => simp
  | cons first rest ih =>
    rw [List.forall_mem_cons] at same
    rw [paint_cons, ih same.2]
    have stored : (fb.store first).pixels[i] =
        if first.index = i then color.bits else fb.pixels[i] := by
      show (fb.pixels.set first.index.val first.value first.index.isLt)[i.val] = _
      rw [Vector.getElem_set, same.1]
      simp only [Fin.ext_iff]
      rfl
    -- a later store to the same pixel has the same value
    by_cases again : ∃ s ∈ rest, s.index = i
    · rw [if_pos again, if_pos (List.exists_mem_cons_of_exists again)]
    · rw [if_neg again, stored]
      by_cases hit : first.index = i
      · rw [if_pos hit, if_pos ⟨first, List.mem_cons_self, hit⟩]
      · rw [if_neg hit, if_neg]
        rw [List.exists_mem_cons_iff, not_or]
        exact ⟨hit, again⟩

namespace Drawing

/-- The place of column `x` of row `y` in a framebuffer. -/
def pixelIndex (x y : Nat) (hx : x < width) (hy : y < height) : Fin pixelCount :=
  ⟨y * width + x, by unfold pixelCount width height at *; omega⟩

/-- One pixel at natural coordinates, nothing outside the picture. -/
def pixel (x y : Nat) (color : Color) : Drawing :=
  if h : x < width ∧ y < height then [⟨pixelIndex x y h.1 h.2, color.bits⟩] else []

/-- One pixel. -/
def point (x y : UInt64) (color : Color) : Drawing := pixel x.toNat y.toNat color

/-- A filled rectangle, clipped to the picture, row by row. -/
def rect (x y w h : UInt64) (color : Color) : Drawing :=
  let right := min (saturatingAdd x w).toNat width
  let bottom := min (saturatingAdd y h).toNat height
  (List.range' y.toNat (bottom - y.toNat)).flatMap fun row =>
    (List.range' x.toNat (right - x.toNat)).flatMap fun column => pixel column row color

/-- A sum of sizes that are both far from the largest one. -/
theorem toNat_saturatingAdd {a b : UInt64} (lt : a.toNat + b.toNat < 2 ^ 64) :
    (saturatingAdd a b).toNat = a.toNat + b.toNat := by
  have sum : (a + b).toNat = a.toNat + b.toNat := by
    rw [UInt64.toNat_add, Nat.mod_eq_of_lt lt]
  rw [saturatingAdd, if_pos, sum]
  rw [UInt64.le_iff_toNat_le, sum]
  exact Nat.le_add_right _ _

/-- The pixel at an index lies in a rectangle. -/
structure Inside (x y w h : Nat) (i : Fin pixelCount) : Prop where
  left : x ≤ i.val % width
  right : i.val % width < x + w
  top : y ≤ i.val / width
  bottom : i.val / width < y + h

instance (x y w h : Nat) : DecidablePred (Inside x y w h) := fun i =>
  decidable_of_iff ((x ≤ i.val % width ∧ i.val % width < x + w) ∧ y ≤ i.val / width ∧
    i.val / width < y + h)
    ⟨fun ⟨⟨left, right⟩, top, bottom⟩ => ⟨left, right, top, bottom⟩,
      fun ⟨left, right, top, bottom⟩ => ⟨⟨left, right⟩, top, bottom⟩⟩

/-- The coordinates of a pixel are found again. -/
theorem coordinates_pixelIndex {column row : Nat} (narrow : column < width) (low : row < height) :
    (pixelIndex column row narrow low).val % width = column ∧
      (pixelIndex column row narrow low).val / width = row := by
  show (row * width + column) % width = column ∧ (row * width + column) / width = row
  unfold width at *
  omega

/-- A pixel at coordinates lies in a rectangle exactly if these do. -/
theorem inside_pixelIndex_iff {x y w h column row : Nat} (narrow : column < width)
    (low : row < height) : Inside x y w h (pixelIndex column row narrow low) ↔
      (x ≤ column ∧ column < x + w) ∧ y ≤ row ∧ row < y + h := by
  obtain ⟨across, down⟩ := coordinates_pixelIndex narrow low
  constructor
  · rintro ⟨left, right, top, bottom⟩
    rw [across] at left right
    rw [down] at top bottom
    exact ⟨⟨left, right⟩, top, bottom⟩
  · rintro ⟨⟨left, right⟩, top, bottom⟩
    exact ⟨left.trans_eq across.symm, across.trans_lt right, top.trans_eq down.symm,
      down.trans_lt bottom⟩

/-- Every pixel is at coordinates. -/
theorem exists_pixelIndex (i : Fin pixelCount) :
    ∃ narrow low, pixelIndex (i.val % width) (i.val / width) narrow low = i := by
  have lt : i.val < width * height := i.isLt
  exact ⟨Nat.mod_lt _ (by decide), Nat.div_lt_of_lt_mul lt, Fin.ext (Nat.div_add_mod' _ _)⟩

/-- An end at a limit is where the sum of natural numbers has it: a sum that no size can hold is
past every limit. -/
theorem min_toNat_saturatingAdd (a b : UInt64) {limit : Nat} (small : limit < 2 ^ 64) :
    min (saturatingAdd a b).toNat limit = min (a.toNat + b.toNat) limit := by
  by_cases lt : a.toNat + b.toNat < 2 ^ 64
  · rw [toNat_saturatingAdd lt]
  · have ha := a.toNat_lt
    have hb := b.toNat_lt
    have wrapped : ¬ a ≤ a + b := by
      rw [UInt64.le_iff_toNat_le, UInt64.toNat_add]
      omega
    have greatest : (saturatingAdd a b).toNat = 2 ^ 64 - 1 := by
      rw [saturatingAdd, if_neg wrapped]
      rfl
    omega

/-- A coordinate lies between a start and an end at a limit if it lies in the stretch and below the
limit. -/
theorem mem_clipped_iff {start length limit k : Nat} :
    k ∈ List.range' start (min (start + length) limit - start) ↔
      (start ≤ k ∧ k < start + length) ∧ k < limit := by
  rw [List.mem_range'_1]
  omega

/-- **The stores of a rectangle**: its colour, for each pixel inside. -/
theorem mem_rect_iff {x y w h : UInt64} {color : Color} {s : PixelStore} :
    s ∈ rect x y w h color ↔
      s.value = color.bits ∧ Inside x.toNat y.toNat w.toNat h.toNat s.index := by
  rw [rect, min_toNat_saturatingAdd x w (by decide), min_toNat_saturatingAdd y h (by decide)]
  simp only [List.mem_flatMap, mem_clipped_iff]
  -- behind the clipping no pixel is dropped, so stores and coordinates go together
  constructor
  · rintro ⟨row, ⟨inRows, low⟩, column, ⟨inColumns, narrow⟩, member⟩
    rw [pixel, dif_pos ⟨narrow, low⟩, List.mem_singleton] at member
    subst member
    exact ⟨rfl, (inside_pixelIndex_iff narrow low).2 ⟨inColumns, inRows⟩⟩
  · obtain ⟨index, word⟩ := s
    rintro ⟨value, left, right, top, bottom⟩
    obtain ⟨narrow, low, eq⟩ := exists_pixelIndex index
    refine ⟨_, ⟨⟨top, bottom⟩, low⟩, _, ⟨⟨left, right⟩, narrow⟩, ?_⟩
    rw [pixel, dif_pos ⟨narrow, low⟩, List.mem_singleton]
    exact congrArg₂ PixelStore.mk eq.symm value

/-- A rectangle in the picture has as many pixels as its sides say. -/
theorem card_inside {x y w h : Nat} (columns : x + w ≤ width) (rows : y + h ≤ height) :
    (Finset.univ.filter (Inside x y w h)).card = w * h := by
  have sides : ((Finset.Ico x (x + w)) ×ˢ (Finset.Ico y (y + h))).card = w * h := by
    rw [Finset.card_product, Nat.card_Ico, Nat.card_Ico, Nat.add_sub_cancel_left,
      Nat.add_sub_cancel_left]
  rw [← sides]
  refine Finset.card_bij (fun i _ => (i.val % width, i.val / width)) ?_ ?_ ?_
  · intro i member
    obtain ⟨left, right, top, bottom⟩ := (Finset.mem_filter.1 member).2
    exact Finset.mem_product.2 ⟨Finset.mem_Ico.2 ⟨left, right⟩, Finset.mem_Ico.2 ⟨top, bottom⟩⟩
  · intro i _ j _ same
    obtain ⟨column, row⟩ := Prod.mk.inj same
    rw [Fin.ext_iff, ← Nat.div_add_mod' i.val width, ← Nat.div_add_mod' j.val width, column, row]
  · rintro ⟨column, row⟩ member
    obtain ⟨inColumns, inRows⟩ := Finset.mem_product.1 member
    rw [Finset.mem_Ico] at inColumns inRows
    have narrow : column < width := Nat.lt_of_lt_of_le inColumns.2 columns
    have low : row < height := Nat.lt_of_lt_of_le inRows.2 rows
    have inside := (inside_pixelIndex_iff narrow low).2 ⟨inColumns, inRows⟩
    obtain ⟨across, down⟩ := coordinates_pixelIndex narrow low
    exact ⟨_, Finset.mem_filter.2 ⟨Finset.mem_univ _, inside⟩, Prod.ext across down⟩

end Drawing

/-- **A rectangle** sets the pixels inside to its colour, and leaves the others. -/
theorem Framebuffer.pixels_paint_rect (x y w h : UInt64) (color : Color) (fb : Framebuffer)
    (i : Fin pixelCount) : (fb.paint (.rect x y w h color)).pixels[i] =
      if Drawing.Inside x.toNat y.toNat w.toNat h.toNat i then color.bits else fb.pixels[i] := by
  rw [pixels_paint fun s member => (Drawing.mem_rect_iff.1 member).1]
  refine if_congr ⟨?_, fun inside => ?_⟩ rfl rfl
  · rintro ⟨s, member, rfl⟩
    exact (Drawing.mem_rect_iff.1 member).2
  · exact ⟨⟨i, color.bits⟩, Drawing.mem_rect_iff.2 ⟨rfl, inside⟩, rfl⟩

end ColdBoot
