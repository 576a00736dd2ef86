import ColdBoot.Video.Output
import Mathlib.Data.Nat.Bitwise
import Mathlib.Logic.Function.Basic

/-! # Pictures as bytes

The engine and the cache know nothing of pixels: to them a framebuffer is a run of bytes. A pixel
is two of them, the more significant one first.

* **`Framebuffer.LiesAt`** – a picture is what a memory holds from a place on;
* **`Framebuffer.LiesAt.paint`** – drawing is storing the bytes of the drawing;
* **`Color.byte`** – the bytes of a run of one colour. -/

namespace ColdBoot

/-- A memory, byte by byte. -/
abbrev Bytes := Nat → UInt8

/-! ### Halfwords -/

/-- The more significant byte. -/
def highByte (value : UInt16) : UInt8 := (value >>> 8).toUInt8

/-- The less significant byte. -/
def lowByte (value : UInt16) : UInt8 := value.toUInt8

/-- The halfword of two bytes. -/
def halfword (high low : UInt8) : UInt16 := (high.toUInt16 <<< 8) ||| low.toUInt16

theorem toNat_halfword (high low : UInt8) :
    (halfword high low).toNat = high.toNat * 2 ^ 8 + low.toNat := by
  have := high.toNat_lt
  have := low.toNat_lt
  rw [halfword, UInt16.toNat_or, UInt16.toNat_shiftLeft, UInt8.toNat_toUInt16,
    UInt8.toNat_toUInt16]
  show (high.toNat <<< 8 % 2 ^ 16) ||| low.toNat = _
  rw [Nat.shiftLeft_eq, Nat.mod_eq_of_lt (by omega), Nat.mul_comm,
    Nat.two_pow_add_eq_or_of_lt (by omega)]

@[simp] theorem highByte_halfword (high low : UInt8) : highByte (halfword high low) = high := by
  have := high.toNat_lt
  have := low.toNat_lt
  rw [← UInt8.toNat_inj, highByte, UInt16.toNat_toUInt8, UInt16.toNat_shiftRight, toNat_halfword,
    Nat.shiftRight_eq_div_pow]
  show (_ / 2 ^ 8) % 2 ^ 8 = _
  omega

@[simp] theorem lowByte_halfword (high low : UInt8) : lowByte (halfword high low) = low := by
  have := low.toNat_lt
  rw [← UInt8.toNat_inj, lowByte, UInt16.toNat_toUInt8, toNat_halfword]
  omega

@[simp] theorem halfword_bytes (value : UInt16) :
    halfword (highByte value) (lowByte value) = value := by
  have := value.toNat_lt
  rw [← UInt16.toNat_inj, toNat_halfword, highByte, lowByte, UInt16.toNat_toUInt8,
    UInt16.toNat_toUInt8, UInt16.toNat_shiftRight, Nat.shiftRight_eq_div_pow]
  show value.toNat / 2 ^ 8 % 2 ^ 8 * 2 ^ 8 + value.toNat % 2 ^ 8 = _
  omega

/-- The byte of a halfword at an even or an odd place. -/
def halfwordByte (value : UInt16) (k : Nat) : UInt8 :=
  if k % 2 = 0 then highByte value else lowByte value

/-! ### Runs of one colour -/

/-- Byte `k` of a run of one colour. -/
def Color.byte (color : Color) (k : Nat) : UInt8 := halfwordByte color.bits k

/-- Only whether its place is odd matters to a byte of a run of one colour. -/
theorem Color.byte_congr (color : Color) {k l : Nat} (h : k % 2 = l % 2) :
    color.byte k = color.byte l := by
  rw [byte, byte, halfwordByte, halfwordByte, h]

/-- The stores that fill the staging page from a place on. -/
def Color.pageStores (color : Color) (base : Nat) : List (Nat × UInt8) :=
  (List.range pageSize.toNat).map fun k => (base + k, color.byte k)

theorem Color.mem_pageStores {color : Color} {base : Nat} {store : Nat × UInt8} :
    store ∈ color.pageStores base ↔ ∃ k < pageSize.toNat, (base + k, color.byte k) = store := by
  simp only [pageStores, List.mem_map, List.mem_range]

/-! ### Framebuffers -/

namespace Framebuffer

/-- Byte `k` of a picture. -/
def byte (fb : Framebuffer) (k : Nat) : UInt8 := halfwordByte (fb.pixels[k / 2]?.getD 0) k

/-- A memory holds a picture from a place on. -/
def LiesAt (fb : Framebuffer) (memory : Bytes) (base : Nat) : Prop :=
  ∀ k < byteSize.toNat, memory (base + k) = fb.byte k

/-- The picture that a memory holds from a place on. -/
def ofBytes (memory : Bytes) (base : Nat) : Framebuffer where
  pixels := .ofFn fun i => halfword (memory (base + 2 * i)) (memory (base + 2 * i + 1))

theorem ofBytes_liesAt (memory : Bytes) (base : Nat) :
    (ofBytes memory base).LiesAt memory base := by
  intro k lt
  have lt' : k / 2 < pixelCount := by
    have : k < 153600 := lt
    show k / 2 < 320 * 240
    omega
  -- an even byte is the first of its pixel, an odd one the second
  have parts : base + k = base + 2 * (k / 2) ∧ k % 2 = 0 ∨
      base + k = base + 2 * (k / 2) + 1 ∧ k % 2 ≠ 0 := by omega
  rw [byte, ofBytes, Vector.getElem?_ofFn, dif_pos lt', Option.getD_some, halfwordByte]
  rcases parts with ⟨eq, even⟩ | ⟨eq, odd⟩
  · rw [if_pos even, highByte_halfword, ← eq]
  · rw [if_neg odd, lowByte_halfword, ← eq]

/-- A memory holds one picture only from a place on. -/
theorem LiesAt.ofBytes_eq {fb : Framebuffer} {memory : Bytes} {base : Nat}
    (lies : fb.LiesAt memory base) : ofBytes memory base = fb := by
  refine congrArg Framebuffer.mk (Vector.ext fun i lt => ?_)
  have inside : 2 * i + 1 < byteSize.toNat := by
    have : i < 320 * 240 := lt
    show 2 * i + 1 < 153600
    omega
  have pixel (r : Nat) (small : r < 2) : fb.byte (2 * i + r) = halfwordByte fb.pixels[i] r := by
    have half : (2 * i + r) / 2 = i := by omega
    rw [byte, half, Vector.getElem?_eq_getElem lt, Option.getD_some, halfwordByte, halfwordByte,
      Nat.mul_add_mod]
  rw [Vector.getElem_ofFn, Nat.add_assoc, lies _ (Nat.lt_of_succ_lt inside), lies _ inside,
    pixel 1 (by decide)]
  exact (congrArg (halfword · _) (pixel 0 (by decide))).trans (halfword_bytes fb.pixels[i])

/-- A picture of one colour is a run of it. -/
theorem byte_uniform (color : Color) {k : Nat} (lt : k < byteSize.toNat) :
    (uniform color).byte k = color.byte k := by
  have lt' : k / 2 < pixelCount := by
    have : k < 153600 := lt
    show k / 2 < 320 * 240
    omega
  rw [byte, uniform, Vector.getElem?_replicate, if_pos lt', Option.getD_some, Color.byte]

/-- A byte behind one store. -/
theorem byte_store (fb : Framebuffer) (s : PixelStore) (k : Nat) :
    (fb.store s).byte k = if k / 2 = s.index then halfwordByte s.value k else fb.byte k := by
  rw [byte, store, Vector.getElem?_set]
  by_cases hit : s.index.val = k / 2
  · rw [if_pos hit, if_pos hit.symm, Option.getD_some]
  · rw [if_neg hit, if_neg (Ne.symm hit), byte]

end Framebuffer

/-! ### Stores -/

/-- A memory behind some stores. -/
def Bytes.stored (memory : Bytes) (stores : List (Nat × UInt8)) : Bytes :=
  stores.foldl (fun memory store => Function.update memory store.1 store.2) memory

namespace Bytes

@[simp] theorem stored_nil (memory : Bytes) : memory.stored [] = memory := rfl

@[simp] theorem stored_cons (memory : Bytes) (store : Nat × UInt8)
    (stores : List (Nat × UInt8)) :
    memory.stored (store :: stores) =
      Bytes.stored (Function.update memory store.1 store.2) stores := rfl

theorem stored_append (memory : Bytes) (first second : List (Nat × UInt8)) :
    memory.stored (first ++ second) = Bytes.stored (memory.stored first) second :=
  List.foldl_append

/-- A memory behind stores in a row. -/
theorem stored_row (memory : Bytes) (a : Nat) (value : Nat → UInt8) (count b : Nat) :
    memory.stored ((List.range count).map fun k => (a + k, value k)) b =
      if a ≤ b ∧ b < a + count then value (b - a) else memory b := by
  induction count with
  | zero => rw [if_neg (by omega)]; rfl
  | succ count ih =>
    rw [List.range_succ, List.map_append, stored_append, List.map_singleton,
      stored_cons, stored_nil, Function.update_apply, ih]
    by_cases last : b = a + count
    · rw [if_pos last, if_pos (by omega), last, Nat.add_sub_cancel_left]
    · rw [if_neg last]
      have same : a ≤ b ∧ b < a + count ↔ a ≤ b ∧ b < a + (count + 1) := by omega
      rw [if_congr same rfl rfl]

/-- Stores in a row leave nothing of earlier ones in the same row. -/
theorem stored_row_over (memory : Bytes) (a : Nat) (first second : Nat → UInt8) (count : Nat) :
    Bytes.stored (memory.stored ((List.range count).map fun k => (a + k, first k)))
        ((List.range count).map fun k => (a + k, second k)) =
      memory.stored ((List.range count).map fun k => (a + k, second k)) := by
  funext b
  rw [stored_row, stored_row, stored_row]
  by_cases inside : a ≤ b ∧ b < a + count
  · rw [if_pos inside, if_pos inside]
  · rw [if_neg inside, if_neg inside, if_neg inside]

end Bytes

/-- A page of black is a page of zeros. -/
theorem Color.pageStores_black (base : Nat) :
    Color.pageStores ⟨0⟩ base = (List.range pageSize.toNat).map fun k => (base + k, 0) := by
  have zero (k : Nat) : Color.byte ⟨0⟩ k = 0 := by
    unfold byte halfwordByte
    split <;> rfl
  simp only [pageStores, zero]

/-- Filling a page of empty memory with black changes nothing. -/
theorem Bytes.stored_black (base : Nat) :
    Bytes.stored (fun _ => 0) (Color.pageStores ⟨0⟩ base) = fun _ => 0 := by
  funext a
  rw [Color.pageStores_black, stored_row]
  exact ite_self 0

/-- The stores of a doubleword from a place on, its most significant byte first. -/
def doublewordStores (word : UInt64) (base : Nat) : List (Nat × UInt8) :=
  (List.range 8).map fun k => (base + k, doublewordByte word k)

theorem mem_doublewordStores {word : UInt64} {base : Nat} {store : Nat × UInt8}
    (h : store ∈ doublewordStores word base) : base ≤ store.1 ∧ store.1 < base + 8 := by
  obtain ⟨k, small, rfl⟩ := List.mem_map.1 h
  exact ⟨Nat.le_add_right _ _, Nat.add_lt_add_left (List.mem_range.1 small) _⟩

/-- The two stores of a pixel. -/
def PixelStore.stores (s : PixelStore) (base : Nat) : List (Nat × UInt8) :=
  [(base + 2 * s.index, highByte s.value), (base + 2 * s.index + 1, lowByte s.value)]

/-- The stores of a drawing into the framebuffer at a place. -/
def Drawing.stores (drawing : Drawing) (base : Nat) : List (Nat × UInt8) :=
  drawing.flatMap fun s => s.stores base

/-- A drawing stores into its framebuffer only. -/
theorem Drawing.mem_stores {drawing : Drawing} {base : Nat} {store : Nat × UInt8}
    (h : store ∈ drawing.stores base) :
    base ≤ store.1 ∧ store.1 < base + Framebuffer.byteSize.toNat := by
  obtain ⟨s, -, member⟩ := List.mem_flatMap.1 h
  have lt : s.index.val < 320 * 240 := s.index.isLt
  show _ ∧ _ < base + 153600
  rw [PixelStore.stores, List.mem_cons, List.mem_singleton] at member
  rcases member with rfl | rfl
  · exact ⟨Nat.le_add_right _ _, by show base + 2 * s.index.val < _; omega⟩
  · exact ⟨by show _ ≤ base + 2 * s.index.val + 1; omega,
      by show base + 2 * s.index.val + 1 < _; omega⟩

namespace Framebuffer

/-- Storing a pixel is storing its two bytes. -/
theorem LiesAt.store {fb : Framebuffer} {memory : Bytes} {base : Nat} (lies : fb.LiesAt memory base)
    (s : PixelStore) : (fb.store s).LiesAt (memory.stored (s.stores base)) base := by
  intro k lt
  rw [byte_store, ← lies k lt]
  simp only [PixelStore.stores, Bytes.stored_cons, Bytes.stored_nil, Function.update_apply,
    halfwordByte]
  -- a byte of the pixel is met by the store of its own parity, any other one by neither
  by_cases hit : k / 2 = s.index
  · rw [if_pos hit]
    by_cases even : k % 2 = 0
    · rw [if_pos even, if_neg (by omega), if_pos (by omega)]
    · rw [if_neg even, if_pos (by omega)]
  · rw [if_neg hit, if_neg (by omega), if_neg (by omega)]

/-- **Drawing** is storing the bytes of the drawing. -/
theorem LiesAt.paint {fb : Framebuffer} {memory : Bytes} {base : Nat} (lies : fb.LiesAt memory base)
    (drawing : Drawing) :
    (fb.paint drawing).LiesAt (memory.stored (Drawing.stores drawing base)) base := by
  induction drawing generalizing fb memory with
  | nil => exact lies
  | cons s drawing ih =>
    have split : Drawing.stores (s :: drawing) base =
        s.stores base ++ Drawing.stores drawing base := rfl
    rw [split, Bytes.stored_append]
    exact ih (lies.store s)

end Framebuffer

end ColdBoot
