import ColdBoot.BitField

/-! # Row lengths

The signal processor's engine moves rows of bytes with gaps between them on the RDRAM side. A
**`RowLength`** is packed into one word: bytes per row less one in bits 0 to 11, rows less one in
bits 12 to 19, and the gap in bits 20 to 31. -/

namespace ColdBoot

/-- A transfer's shape, with the two counts less one as the engine wants them. -/
structure RowLength where
  /-- Bytes in a row, less one. -/
  copy : UInt16
  /-- Rows, less one. -/
  count : UInt8
  /-- Bytes of RDRAM between rows. -/
  skip : UInt16
  deriving DecidableEq, Repr

namespace RowLength

/-- Place of `copy` in the packed word. -/
def copyField : BitField := ⟨0, 12⟩

/-- Place of `count` in the packed word. -/
def countField : BitField := ⟨12, 8⟩

/-- Place of `skip` in the packed word. -/
def skipField : BitField := ⟨20, 12⟩

/-- One row of `bytes` bytes; only the low half of the count is kept. -/
def linear (bytes : UInt64) : Except Fault RowLength := do
  let copy ← Checked.subSize bytes 1
  return { copy := copy.toUInt16, count := 0, skip := 0 }

/-- `rows` rows of `rowBytes` bytes with `skip` bytes of RDRAM between them; of each number only the
bits that its part of the shape has are kept. -/
def rows (rowBytes rows skip : UInt64) : Except Fault RowLength := do
  let copy ← Checked.subSize rowBytes 1
  let count ← Checked.subSize rows 1
  return { copy := copy.toUInt16, count := count.toUInt8, skip := skip.toUInt16 }

/-- The packed word. -/
def bits (row : RowLength) : Except Fault UInt32 := do
  let word ← copyField.put 0 row.copy.toUInt32
  let word ← countField.put word row.count.toUInt32
  skipField.put word row.skip.toUInt32

/-- The shape that a packed word stands for. -/
def ofBits (word : UInt32) : RowLength where
  copy := (copyField.get word).toUInt16
  count := (countField.get word).toUInt8
  skip := (skipField.get word).toUInt16

/-- Bytes moved on the signal processor's side. -/
def totalBytes (row : RowLength) : Except Fault UInt64 := do
  let copy ← Checked.addSize row.copy.toUInt64 1
  let count ← Checked.addSize row.count.toUInt64 1
  Checked.mulSize copy count

end RowLength

end ColdBoot
