/-! Decimal digits: their value and how a number is written in them. -/

namespace Pseudocode.Decimal
set_option autoImplicit false

/-- The digits of a number, without a superfluous zero. -/
def digits (n : Nat) : List Char := Nat.toDigits 10 n

/-- The number that a row of digits denotes. -/
def value (cs : List Char) : Nat := Nat.ofDigitChars 10 cs 0

/-- The digits of a number, with zeros in front up to the given width. -/
def padded (width n : Nat) : List Char :=
  List.replicate (width - (digits n).length) '0' ++ digits n

/-- A row of digits without the zeros at its end. -/
def trimZeros (cs : List Char) : List Char :=
  (cs.reverse.dropWhile (· == '0')).reverse

/-- Whether a text is one or more digits. -/
def isNumeral (cs : List Char) : Bool :=
  !cs.isEmpty && cs.all Char.isDigit

end Pseudocode.Decimal
