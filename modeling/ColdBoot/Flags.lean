import ColdBoot.Numeral

/-! # Flag words

Several registers are sets of single-bit flags. A **flag word** is any 32-bit word read that way; a
**`FlagRegister`** lists the flags that a register defines. Bits outside that list are *unknown*:
they are kept by every operation that does not say otherwise. -/

namespace ColdBoot

/-- A word read as a set of flags. -/
abbrev Flags := UInt32

namespace Flags

/-- Every flag of `b` is set in `a`. -/
def contains (a b : Flags) : Bool := a &&& b = b

/-- Some flag of `b` is set in `a`. -/
def intersects (a b : Flags) : Bool := a &&& b ≠ 0

/-- The flags of either word. -/
def union (a b : Flags) : Flags := a ||| b

/-- The flags of both words. -/
def inter (a b : Flags) : Flags := a &&& b

/-- The flags of `a` that `b` lacks. -/
def without (a b : Flags) : Flags := a &&& ~~~b

/-- The flags of exactly one of the words. -/
def toggle (a b : Flags) : Flags := a ^^^ b

end Flags

/-- One named flag. -/
structure Flag where
  name : String
  bits : Flags
  deriving DecidableEq, Repr

/-- A register that is a set of flags, each with its name, in the order they are listed. -/
structure FlagRegister where
  name : String
  flags : List Flag

namespace FlagRegister

variable (register : FlagRegister)

/-- All flags the register defines. -/
def all : Flags := register.flags.foldl (fun word flag => word.union flag.bits) 0

/-- The defined flags of a word. -/
def truncate (word : Flags) : Flags := word.inter register.all

/-- The word itself, if it has no unknown bit. -/
def ofBits? (word : Flags) : Option Flags :=
  if register.truncate word = word then some word else none

/-- The defined flags that a word lacks. -/
def complement (word : Flags) : Flags := register.truncate (~~~word)

/-- Names of the defined flags of a word, in listing order. -/
def names (word : Flags) : List String :=
  (register.flags.filter fun flag => word.contains flag.bits).map (·.name)

/-- Readable form: the register's name and, in brackets, the flags, unknown bits last as one
hexadecimal number. -/
def describe (word : Flags) : String :=
  let unknown := word.without register.all
  let parts := register.names word ++
    (if unknown = 0 then [] else [Numeral.hexPrefixed 1 unknown.toNat])
  let inside := if parts.isEmpty then Numeral.hexPrefixed 1 0 else " | ".intercalate parts
  register.name ++ "(" ++ inside ++ ")"

end FlagRegister

end ColdBoot
