import Pseudocode.Builtin
import Pseudocode.Value.Operation

/-! What the built-in functions compute. -/

namespace Pseudocode
set_option autoImplicit false

/-- The largest exponent of an `ENTIER` base, the last one of 32 bits. -/
def maxExponent : Nat := 4294967295

/-- An exponent of an `ENTIER` base as a natural number. -/
def Entier.exponent (n : Entier) (line : Nat) : Except RuntimeError Nat :=
  if n.toInt < 0 then .error ⟨.domainError (.negativeExponent n), line⟩
  else if maxExponent < n.toInt.toNat then .error ⟨.overflow, line⟩
  else .ok n.toInt.toNat

/-- A count as an `ENTIER`. -/
def Entier.ofCount (n : Nat) (line : Nat) : Except RuntimeError Entier :=
  orOverflow (Entier.ofInt? n) line

/-- The power of a `REEL`, which must be finite. Zero has no negative powers. -/
def Reel.power (base : Reel) (exponent : Entier) (line : Nat) : Except RuntimeError Reel :=
  if base == 0 && exponent.toInt < 0 then .error ⟨.divisionByZero, line⟩
  else orOverflow (Reel.finite? (Float.pow base (Reel.ofEntier exponent))) line

namespace Builtin

/-- Fails because an argument is no number. -/
def notANumber {α : Type} (builtin : Builtin) (argument : Value) (line : Nat) :
    Except RuntimeError α :=
  .error ⟨.typeMismatch (.argumentNotANumber builtin.name argument.ty?), line⟩

/-- A function of one number, given by what it does with an `ENTIER` and with a `REEL`. -/
def ofNumber (builtin : Builtin) (argument : Value) (line : Nat)
    (onEntier : Entier → Except RuntimeError Value) (onReel : Reel → Except RuntimeError Value) :
    Except RuntimeError Value :=
  match argument with
  | .integer n => onEntier n
  | .real x => onReel x
  | _ => builtin.notANumber argument line

/-- The square root of a number. -/
def root (argument : Value) (line : Nat) : Except RuntimeError Value :=
  match argument.reel? with
  | none => racine.notANumber argument line
  | some x =>
    if x < 0 then .error ⟨.domainError (.negativeRoot argument), line⟩
    else .ok (.real (Float.sqrt x))

/-- The number of characters of a text. -/
def length (argument : Value) (line : Nat) : Except RuntimeError Value :=
  match argument.text? with
  | some s => (Entier.ofCount s.length line).map .integer
  | none => .error ⟨.typeMismatch (.lengthOfNoText argument.ty?), line⟩

/-- A power with an `ENTIER` exponent; the result has the type of the base. -/
def power (base exponent : Value) (line : Nat) : Except RuntimeError Value :=
  match exponent with
  | .integer n =>
    ofNumber .puissance base line
      (fun b => do return .integer (← orOverflow (b.pow? (← n.exponent line)) line))
      (fun x => (Reel.power x n line).map .real)
  | _ => .error ⟨.typeMismatch (.exponentNotAnEntier exponent.ty?), line⟩

/-- A built-in function applied to one value. -/
def apply1 (builtin : Builtin) (argument : Value) (line : Nat) : Except RuntimeError Value :=
  match builtin with
  | .abs => builtin.ofNumber argument line
      (fun n => (orOverflow n.abs? line).map .integer) (fun x => .ok (.real (Float.abs x)))
  | .carre => builtin.ofNumber argument line
      (fun n => (orOverflow (n.mul? n) line).map .integer)
      (fun x => (orOverflow (Reel.finite? (x * x)) line).map .real)
  | .ent => builtin.ofNumber argument line
      (fun n => .ok (.integer n)) (fun x => (orOverflow (Reel.truncate? x) line).map .integer)
  | .arrondi => builtin.ofNumber argument line
      (fun n => .ok (.integer n)) (fun x => (orOverflow (Reel.round? x) line).map .integer)
  | .racine => root argument line
  | .longueur => length argument line
  | .puissance => .error ⟨.arityError builtin.name builtin.arity 1, line⟩

/-- A built-in function applied to values. -/
def apply (builtin : Builtin) (arguments : List Value) (line : Nat) : Except RuntimeError Value :=
  match builtin, arguments with
  | .puissance, [base, exponent] => power base exponent line
  | _, [argument] => builtin.apply1 argument line
  | _, _ => .error ⟨.arityError builtin.name builtin.arity arguments.length, line⟩

end Builtin
end Pseudocode
