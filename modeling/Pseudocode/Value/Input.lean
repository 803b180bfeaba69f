import Pseudocode.Text.Blank
import Pseudocode.Text.Lowercase
import Pseudocode.Value.Coercion

/-! Values read from input text. Numbers and truth values ignore the white space around them; texts
and characters are taken as they stand. -/

namespace Pseudocode
set_option autoImplicit false

/-- A sign at the front of a numeral, and what follows it. Without one the number is positive. -/
def splitSign : List Char → Bool × List Char
  | '+' :: cs => (false, cs)
  | '-' :: cs => (true, cs)
  | cs => (false, cs)

/-- The `ENTIER` that a sign and digits denote, if it is one. -/
def Entier.read? (cs : List Char) : Option Entier :=
  let (negative, digits) := splitSign cs
  if Decimal.isNumeral digits then
    let n : Int := Decimal.value digits
    Entier.ofInt? (if negative then -n else n)
  else none

/-- Whether what is left of a numeral makes it one with some digit and at most one decimal mark, a
point or a comma, after the given number of marks and, if `digit`, some digit. -/
def isDecimalFrom (marks : Nat) (digit : Bool) : List Char → Bool
  | [] => digit && marks ≤ 1
  | c :: cs =>
    if c.isDigit then isDecimalFrom marks true cs
    else if c = '.' ∨ c = ',' then isDecimalFrom (marks + 1) digit cs
    else false

/-- Whether a text is digits with at most one decimal mark, after a sign that may be left out. -/
def isDecimal (cs : List Char) : Bool :=
  isDecimalFrom 0 false (splitSign cs).2

/-- The digits before and after the point of a numeral without a sign. The point may be left out, and
digits may be missing on one side of it. -/
def decimalParts? (cs : List Char) : Option (List Char × List Char) :=
  let whole := cs.takeWhile Char.isDigit
  match cs.dropWhile Char.isDigit with
  | [] => if whole.isEmpty then none else some (whole, [])
  | mark :: fraction =>
    if mark = '.' ∧ fraction.all Char.isDigit ∧ ¬(whole ++ fraction).isEmpty then
      some (whole, fraction)
    else none

/-- The `REEL` nearest to what a sign and a numeral with a point denote. -/
def Reel.parse? (cs : List Char) : Option Reel :=
  let (negative, numeral) := splitSign cs
  (decimalParts? numeral).map fun (whole, fraction) =>
    Reel.ofDecimal negative (Decimal.value (whole ++ fraction)) fraction.length

/-- A decimal comma as a point; other characters stay. -/
def commaToPoint (c : Char) : Char := if c = ',' then '.' else c

/-- The `REEL` nearest to what a sign and a decimal numeral denote. -/
def Reel.read? (cs : List Char) : Option Reel :=
  if isDecimal cs then Reel.parse? (cs.map commaToPoint) else none

/-- The truth value of a word in small letters. -/
def truth? (word : List Char) : Option Bool :=
  if ["vrai", "true", "oui", "1"].contains (String.ofList word) then some true
  else if ["faux", "false", "non", "0"].contains (String.ofList word) then some false
  else none

namespace Value

/-- The value of type `ty` that an input denotes. -/
def read? (ty : Ty) (raw : String) : Option Value :=
  match ty with
  | .entier => (Entier.read? (Text.trim raw.toList)).map .integer
  | .reel => (Reel.read? (Text.trim raw.toList)).map .real
  | .chaine => some (.string raw)
  | .caractere => (onlyChar? raw).map .character
  | .booleen => (truth? (Text.lowercase (Text.trim raw.toList))).map .boolean

/-- An input as a value of the type of the variable it is read into. -/
def ofInput (raw : String) (ty : Ty) (name : String) (line : Nat) : Except RuntimeError Value :=
  match read? ty raw with
  | some value => .ok value
  | none => .error ⟨.typeMismatch (.badInput raw ty name), line⟩

end Value
end Pseudocode
