/-! # Colours

A pixel is 16 bits: five each of red, green and blue from the top, and one of coverage. -/

namespace ColdBoot

/-- A 16-bit colour. -/
structure Color where
  bits : UInt16
  deriving DecidableEq, Repr, Inhabited

namespace Color

/-- The opaque colour of three 5-bit channels; higher bits of a channel are dropped. -/
def rgb (red green blue : UInt8) : Color :=
  ⟨((red.toUInt16 &&& 0x1F) <<< 11) ||| ((green.toUInt16 &&& 0x1F) <<< 6)
    ||| ((blue.toUInt16 &&& 0x1F) <<< 1) ||| 1⟩

/-- No light. -/
def black : Color := rgb 0 0 0

/-- Full light. -/
def white : Color := rgb 31 31 31

end Color

end ColdBoot
