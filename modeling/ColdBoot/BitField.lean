import ColdBoot.Fault

/-! # Bit fields of a word

A register packs several numbers into one word. A **`BitField`** names the place of one of them;
`BitField.get` reads it and `BitField.put` replaces it, refusing a value that is too wide. -/

namespace ColdBoot

/-- A run of `width` bits whose lowest one is bit `low`, inside a 32-bit word. -/
structure BitField where
  low : UInt32
  width : UInt32
  deriving DecidableEq, Repr

namespace BitField

/-- The largest value the field can hold. -/
def mask (field : BitField) : UInt32 := ((1 : UInt32) <<< field.width) - 1

/-- The number a word carries in the field. -/
def get (field : BitField) (word : UInt32) : UInt32 := (word >>> field.low) &&& field.mask

/-- The word with `value` in the field and its other bits kept. -/
def put (field : BitField) (word value : UInt32) : Except Fault UInt32 :=
  if value ≤ field.mask then
    .ok ((word &&& ~~~(field.mask <<< field.low)) ||| (value <<< field.low))
  else
    .error .fieldOverflow

end BitField

/-- Whether bit `index` of a word is set. -/
def testBit (word index : UInt32) : Bool := (word >>> index) &&& 1 = 1

end ColdBoot
