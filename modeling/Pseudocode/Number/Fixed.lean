import Pseudocode.Number.Decimal
import Pseudocode.Number.Reel

/-! The printed form of a `REEL`: the exact value rounded to ten decimal places, without the zeros
at its end, but with at least one decimal. -/

namespace Pseudocode
set_option autoImplicit false

/-- The integer nearest to a quotient; a half goes to the even neighbour. -/
def roundToEven (num den : Nat) : Nat :=
  let quotient := num / den
  let rest := num % den
  if 2 * rest < den then quotient
  else if den < 2 * rest then quotient + 1
  else if quotient % 2 = 0 then quotient else quotient + 1

namespace Reel

/-- The number of decimal places that are printed. -/
def printedPlaces : Nat := 10

/-- A `REEL` with a fixed number of decimal places. Zero keeps its sign, and there are no decimals
where there is no number. -/
def fixed (places : Nat) (x : Reel) : List Char :=
  match x.parts? with
  | none => if x.isNaN then "NaN".toList else if x < 0 then "-inf".toList else "inf".toList
  | some p =>
    let n := roundToEven (p.num * Nat.pow 10 places) p.den
    let sign := if p.negative then ['-'] else []
    sign ++ Decimal.digits (n / Nat.pow 10 places)
      ++ '.' :: Decimal.padded places (n % Nat.pow 10 places)

/-- Decimals without the zeros at their end, of which one stays where there is nothing else. -/
def shortened (fraction : List Char) : List Char :=
  match Decimal.trimZeros fraction with
  | [] => ['0']
  | cs => cs

/-- A rounded number without the zeros at the end of its decimals. Zero has no sign. -/
def tidied (rounded : List Char) : List Char :=
  match rounded.span (· != '.') with
  | (_, []) => rounded
  | (whole, _ :: decimals) =>
    let fraction := shortened decimals
    if fraction = ['0'] ∧ whole = ['-', '0'] then ['0', '.', '0']
    else whole ++ '.' :: fraction

/-- The printed form of a `REEL`. -/
def text (x : Reel) : String := String.ofList (tidied (fixed printedPlaces x))

end Reel
end Pseudocode
