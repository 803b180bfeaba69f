/-! The integers of the language: 64-bit, signed. Sums, differences, products and powers are computed
exactly, and it is then asked whether the result is one of them. Division is that of the machine,
which rounds towards zero, with a correction where that is not the same as to round down. -/

namespace Pseudocode
set_option autoImplicit false

/-- An `ENTIER`: an integer of at least `-2 ^ 63` and less than `2 ^ 63`. -/
abbrev Entier := Int64

namespace Entier

/-- The `ENTIER` equal to `n`, if there is one. -/
def ofInt? (n : Int) : Option Entier :=
  if -9223372036854775808 ≤ n ∧ n < 9223372036854775808 then some (Int64.ofInt n) else none

theorem toInt_of_ofInt? {n : Int} {a : Entier} (h : ofInt? n = some a) : a.toInt = n := by
  unfold ofInt? at h
  split at h
  · rename_i hrange
    cases h
    exact Int64.toInt_ofInt_of_le (by omega) (by omega)
  · cases h

/-- The sum, if it is an `ENTIER`. -/
def add? (a b : Entier) : Option Entier := ofInt? (a.toInt + b.toInt)

/-- The difference, if it is an `ENTIER`. -/
def sub? (a b : Entier) : Option Entier := ofInt? (a.toInt - b.toInt)

/-- The product, if it is an `ENTIER`. -/
def mul? (a b : Entier) : Option Entier := ofInt? (a.toInt * b.toInt)

/-- The opposite, if it is an `ENTIER`; the smallest one has none. -/
def neg? (a : Entier) : Option Entier := ofInt? (-a.toInt)

/-- The absolute value, if it is an `ENTIER`. -/
def abs? (a : Entier) : Option Entier := ofInt? a.toInt.natAbs

/-- The quotient rounded towards zero, if it is an `ENTIER`. The divisor is not zero. -/
def quotient? (a b : Entier) : Option Entier := ofInt? (a.toInt.tdiv b.toInt)

/-- What the quotient rounded towards zero leaves, if that quotient is an `ENTIER`. -/
def remainder? (a b : Entier) : Option Entier := (a.quotient? b).map fun _ => a % b

/-- Whether one of two integers is negative and the other one is not. -/
def oppose (a b : Entier) : Bool := (a < 0) != (b < 0)

/-- The quotient rounded down, if it is an `ENTIER`: where something is left of a quotient that is
not positive, it is one less than the quotient rounded towards zero. The divisor is not zero. -/
def floorDiv? (a b : Entier) : Option Entier :=
  (a.quotient? b).map fun quotient =>
    if a % b != 0 && a.oppose b then quotient - 1 else quotient

/-- What the quotient rounded down leaves. Only the smallest `ENTIER` by `-1` has no quotient, and
there nothing is left. The divisor is not zero. -/
def floorRemainder (a b : Entier) : Entier :=
  let remainder := (a.remainder? b).getD 0
  if remainder != 0 && remainder.oppose b then remainder + b else remainder

/-- The power with a natural exponent, if it is an `ENTIER`. From the sixty-fourth on only the
powers of `-1`, `0` and `1` are, and those only depend on whether the exponent is even. -/
def pow? (a : Entier) (n : Nat) : Option Entier :=
  if n < 64 then ofInt? (Int.pow a.toInt n)
  else if a.toInt.natAbs ≤ 1 then ofInt? (Int.pow a.toInt (2 - n % 2))
  else none

/-- The decimal text: a minus sign for a negative number, and no superfluous zero. -/
def text (a : Entier) : String :=
  a.toInt.repr

end Entier
end Pseudocode
