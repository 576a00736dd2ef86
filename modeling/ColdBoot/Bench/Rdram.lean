import ColdBoot.Video.Framebuffer

/-! # The bench's memory

RDRAM is 8 MB, kept in pages so that a copy touches only the pages it lies in. Halfwords have their
low byte first. Whatever would leave the memory is not done at all. -/

namespace ColdBoot

/-- 8 MB of bytes, in pages of 4 KB. -/
structure Rdram where
  pages : Array ByteArray

namespace Rdram

/-- Bytes in a page. -/
def pageSize : Nat := 4096

/-- Pages. -/
def pageCount : Nat := 2048

/-- Bytes in all. -/
def size : Nat := pageSize * pageCount

/-- Bytes that are all zero. -/
def zeros (count : Nat) : ByteArray := ⟨Array.replicate count 0⟩

/-- A page of zeros. -/
def zeroPage : ByteArray := zeros pageSize

/-- Memory that is all zero. -/
def zero : Rdram := ⟨Array.replicate pageCount zeroPage⟩

/-- The pages that `count` bytes from `start` on lie in, each with the part that lies in it: page,
start in the page, start in the run, number of bytes. -/
def slices (start count : Nat) : List (Nat × Nat × Nat × Nat) :=
  if count = 0 then []
  else
    let first := start / pageSize
    let last := (start + count - 1) / pageSize
    (List.range' first (last + 1 - first)).map fun page =>
      let low := max start (page * pageSize)
      let high := min (start + count) ((page + 1) * pageSize)
      (page, low - page * pageSize, low - start, high - low)

/-- `count` bytes from `start` on. -/
def read (rdram : Rdram) (start count : Nat) : ByteArray :=
  (slices start count).foldl (fun bytes (page, low, _, length) =>
    bytes ++ ((rdram.pages[page]?).getD zeroPage).extract low (low + length)) ByteArray.empty

/-- The memory with `bytes` from `start` on. -/
def write (rdram : Rdram) (start : Nat) (bytes : ByteArray) : Rdram :=
  ⟨(slices start bytes.size).foldl (fun pages (page, low, place, length) =>
    pages.modify page fun old => bytes.copySlice place old low length) rdram.pages⟩

/-- The run of bytes lies in the memory. -/
def holds (start count : Nat) : Bool := start + count ≤ size

/-! ### Halfwords -/

/-- The halfword at byte `i`. -/
def halfword (bytes : ByteArray) (i : Nat) : UInt16 :=
  (bytes.get! i).toUInt16 ||| ((bytes.get! (i + 1)).toUInt16 <<< 8)

/-- `count` halfwords from `start` on. -/
def halfwords (rdram : Rdram) (start count : Nat) : Vector UInt16 count :=
  let bytes := rdram.read start (2 * count)
  Vector.ofFn fun i => halfword bytes (2 * i)

/-- The bytes of a halfword that is repeated. -/
def repeated (value : UInt16) : Nat → ByteArray → ByteArray
  | 0, bytes => bytes
  | count + 1, bytes =>
      repeated value count ((bytes.push value.toUInt8).push (value >>> 8).toUInt8)

/-- Store one byte. -/
def storeByte (rdram : Rdram) (place : Nat) (value : UInt8) : Rdram :=
  ⟨rdram.pages.modify (place / pageSize) fun page => page.set! (place % pageSize) value⟩

/-- Store one halfword. -/
def storeHalfword (rdram : Rdram) (start : Nat) (value : UInt16) : Rdram :=
  (rdram.storeByte start value.toUInt8).storeByte (start + 1) (value >>> 8).toUInt8

/-- The framebuffer from `start` on. -/
def frame (rdram : Rdram) (start : Nat) : Framebuffer := ⟨rdram.halfwords start _⟩

/-- Put a drawing into the framebuffer from `start` on. -/
def paint (rdram : Rdram) (start : Nat) (drawing : Drawing) : Rdram :=
  drawing.foldl (fun rdram store =>
    rdram.storeHalfword (start + 2 * store.index.val) store.value) rdram

end Rdram

end ColdBoot
