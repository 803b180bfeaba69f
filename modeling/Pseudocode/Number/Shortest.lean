import Pseudocode.Number.Decimal
import Pseudocode.Number.Reel

/-! The shortest decimal of a `REEL`: the fewest digits that no other `REEL` is nearer to. The search
goes from coarse to fine decimal grids and stops at the first one with a point that rounds back. -/

namespace Pseudocode
set_option autoImplicit false

namespace Parts

/-! ## What rounds back

Distances are taken in quarters of the last binary place, so that both ends of the interval of
numbers that round to `p` are integers. -/

/-- The distance from the value down to the end of the interval, in quarters of the last place: half
a place, or a quarter where the places below are half as wide. -/
def below (p : Parts) : Nat :=
  if p.mantissa = Reel.fractionRange ∧ -1074 < p.exponent then 1 else 2

/-- Whether `d * 10 ^ e` rounds to `p`. The ends of the interval do when the mantissa is even. -/
def roundsBack (p : Parts) (d : Nat) (e : Int) : Bool :=
  let point := d * Nat.pow 10 e.toNat * Nat.pow 2 (2 - p.exponent).toNat
  let unit := Nat.pow 10 (-e).toNat * Nat.pow 2 (p.exponent - 2).toNat
  let low := (4 * p.mantissa - p.below) * unit
  let high := (4 * p.mantissa + 2) * unit
  if p.mantissa % 2 = 0 then low ≤ point && point ≤ high else low < point && point < high

/-! ## The coarsest grid -/

/-- The point of the grid `10 ^ e` that rounds back to `p` and is nearest to it; the larger one of
two that are as near. -/
def gridPoint? (p : Parts) (e : Int) : Option Nat :=
  let num := p.num * Nat.pow 10 (-e).toNat
  let den := p.den * Nat.pow 10 e.toNat
  let d := num / den
  match p.roundsBack d e, p.roundsBack (d + 1) e with
  | false, false => none
  | true, false => some d
  | false, true => some (d + 1)
  | true, true => if den ≤ 2 * (num % den) then some (d + 1) else some d

/-- The first grid with a point, from `10 ^ e` on over at most `steps` finer ones. -/
def coarsest (p : Parts) : Nat → Int → Nat × Int
  | 0, e => (p.num * Nat.pow 10 (-e).toNat / (p.den * Nat.pow 10 e.toNat), e)
  | steps + 1, e =>
    match p.gridPoint? e with
    | some d => (d, e)
    | none => p.coarsest steps (e - 1)

/-- The digits of the shortest decimal and the power of ten that scales them. Every `REEL` is found
on a grid no finer than seventeen digits below the smallest one. -/
def shortest (p : Parts) : Nat × Int :=
  let start := (Decimal.digits (p.num / p.den)).length
  p.coarsest (start + 342) start

end Parts

/-- `d * 10 ^ e` written out, without an exponent. -/
def positional (d : Nat) (e : Int) : List Char :=
  match e with
  | .ofNat n => Decimal.digits (d * Nat.pow 10 n)
  | .negSucc n =>
    let unit := Nat.pow 10 (n + 1)
    Decimal.digits (d / unit) ++ '.' :: Decimal.padded (n + 1) (d % unit)

/-- The shortest decimal of a `REEL`, written out. -/
def Reel.shortestText (x : Reel) : String :=
  match x.parts? with
  | none => if x.isNaN then "NaN" else if x < 0 then "-inf" else "inf"
  | some p =>
    let sign := if p.negative then ['-'] else []
    let (d, e) := if p.mantissa = 0 then (0, 0) else p.shortest
    String.ofList (sign ++ positional d e)

end Pseudocode
