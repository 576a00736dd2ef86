/-! # Hexadecimal numerals

Numbers in traces, log lines and generated text are written in base sixteen with a least number of
digits, filled up with zeros on the left. -/

namespace ColdBoot.Numeral

/-- Digits of `n` in base sixteen, most significant first, at least `width` of them. -/
def hexDigits (width n : Nat) : List Char :=
  let digits := Nat.toDigits 16 n
  List.replicate (width - digits.length) '0' ++ digits

/-- Lower-case hexadecimal text of at least `width` digits. -/
def hex (width n : Nat) : String := String.ofList (hexDigits width n)

/-- Upper-case hexadecimal text of at least `width` digits. -/
def hexUpper (width n : Nat) : String := String.ofList ((hexDigits width n).map Char.toUpper)

/-- Lower-case hexadecimal text of at least `width` digits behind `0x`. -/
def hexPrefixed (width n : Nat) : String := "0x" ++ hex width n

end ColdBoot.Numeral
