import ColdBoot.Log.Level
import ColdBoot.Log.Viewer
import ColdBoot.Numeral

/-! # Log records

A **`LogRecord`** is one message with its level and the part of the program that speaks. It is
printed as one line, handed to the log window piece by piece: every literal, number and filling
character is a piece of its own. Only records that the filter admits are printed. -/

namespace ColdBoot

/-- One message. -/
structure LogRecord where
  level : LogLevel
  target : String
  /-- The message, in the pieces it is printed in. -/
  pieces : List String
  deriving DecidableEq, Repr

namespace LogRecord

/-- Columns given to the level's name. -/
def levelWidth : Nat := 5

/-- The pieces of the printed line: level, target and message. -/
def linePieces (record : LogRecord) : List String :=
  let name := record.level.name
  ["[", name] ++ List.replicate (levelWidth - name.length) " " ++
    ["] ", record.target, ": "] ++ record.pieces ++ ["\n"]

/-- Print a record, if the filter admits it. -/
def emit (filter : LogFilter) (record : LogRecord) : Program Unit :=
  if filter.admits record.level then record.linePieces.forM Viewer.write else .done ()

end LogRecord

/-- The pieces of a word in hexadecimal behind `0x`, in `width` columns. -/
def Numeral.hexPieces (width : Nat) (word : UInt32) : List String :=
  let digits := Numeral.hex 1 word.toNat
  "0x" :: List.replicate (width - 2 - digits.length) "0" ++ [digits]

end ColdBoot
