import Pseudocode.Number.Entier

/-! The real numbers of the language: double precision. A finite one is an integer times a power of
two; conversions to integers and to text start from that exact quotient. -/

namespace Pseudocode
set_option autoImplicit false

/-- A `REEL`: a double precision number. -/
abbrev Reel := Float

/-! ## Exact values -/

/-- A finite `REEL`, as the exact number `± mantissa * 2 ^ exponent`. -/
structure Parts where
  /-- Whether the sign is a minus; also zero has a sign. -/
  negative : Bool
  /-- The integer that the power of two scales. -/
  mantissa : Nat
  /-- The power of two. -/
  exponent : Int
deriving DecidableEq, Repr

namespace Parts

/-- The numerator of the absolute value, over `den`. -/
def num (p : Parts) : Nat := p.mantissa * Nat.pow 2 p.exponent.toNat

/-- The denominator of the absolute value, a power of two. -/
def den (p : Parts) : Nat := Nat.pow 2 (-p.exponent).toNat

/-- The integer with the sign of `p` and the given absolute value. -/
def signed (p : Parts) (n : Nat) : Int := if p.negative then -n else n

end Parts

namespace Reel

/-- The number of fractions with one exponent: two to the power of fifty-two. -/
def fractionRange : Nat := 4503599627370496

/-- The number of exponents. -/
def exponentRange : Nat := 2048

/-- The exact value of a `REEL`; infinities and what is not a number have none. The bits are a sign,
an exponent and a fraction, to which a leading one belongs unless the exponent is the smallest. -/
def parts? (x : Reel) : Option Parts :=
  let bits := x.toBits.toNat
  let negative := bits / (fractionRange * exponentRange) == 1
  let scale : Nat := bits / fractionRange % exponentRange
  let fraction := bits % fractionRange
  if scale + 1 = exponentRange then none
  else if scale = 0 then some ⟨negative, fraction, -1074⟩
  else some ⟨negative, fraction + fractionRange, (scale : Int) - 1075⟩

/-! ## Conversions -/

/-- The `REEL` nearest to an `ENTIER`. -/
def ofEntier (n : Entier) : Reel := Float.ofInt n.toInt

/-- The integer part, if it is an `ENTIER`: the fraction is cut off. -/
def truncate? (x : Reel) : Option Entier :=
  x.parts?.bind fun p => Entier.ofInt? (p.signed (p.num / p.den))

/-- The nearest integer, if it is an `ENTIER`: a half goes away from zero. -/
def round? (x : Reel) : Option Entier :=
  x.parts?.bind fun p => Entier.ofInt? (p.signed ((2 * p.num + p.den) / (2 * p.den)))

/-- A computed `REEL`, if it is finite. -/
def finite? (x : Reel) : Option Reel :=
  if x.isFinite then some x else none

/-- The `REEL` nearest to `± mantissa / 10 ^ places`. -/
def ofDecimal (negative : Bool) (mantissa places : Nat) : Reel :=
  let x := Float.ofScientific mantissa true places
  if negative then -x else x

end Reel
end Pseudocode
