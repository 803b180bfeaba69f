import Pseudocode.RuntimeError

/-! Conversion of a value to a declared type, for assignments, arguments, results and constants. -/

namespace Pseudocode
set_option autoImplicit false

/-- The only character of a text that has exactly one. -/
def onlyChar? (s : String) : Option Char :=
  match s.toList with
  | [c] => some c
  | _ => none

namespace Value

/-- The value of type `ty` that a value stands for, if it does: an `ENTIER` also stands for a `REEL`,
a `CARACTERE` for a `CHAINE`, and a `CHAINE` of one character for a `CARACTERE`. -/
def convert? (ty : Ty) (value : Value) : Option Value :=
  match ty, value with
  | .entier, .integer n => some (.integer n)
  | .reel, .real x => some (.real x)
  | .reel, .integer n => some (.real (Reel.ofEntier n))
  | .chaine, .string s => some (.string s)
  | .chaine, .character c => some (.string (String.singleton c))
  | .booleen, .boolean b => some (.boolean b)
  | .caractere, .character c => some (.character c)
  | .caractere, .string s => (onlyChar? s).map .character
  | _, _ => none

/-- A value as one of the type of its destination. -/
def coerce (value : Value) (ty : Ty) (destination : Destination) (line : Nat) :
    Except RuntimeError Value :=
  match value.convert? ty with
  | some converted => .ok converted
  | none => .error ⟨.typeMismatch (.store value destination ty), line⟩

/-! ## Values of one type -/

/-- A number as a real one. -/
def asReel (value : Value) (line : Nat) : Except RuntimeError Reel :=
  match value.reel? with
  | some x => .ok x
  | none => .error ⟨.typeMismatch (.notANumber value.ty?), line⟩

/-- An `ENTIER`. -/
def asEntier (value : Value) (line : Nat) : Except RuntimeError Entier :=
  match value with
  | .integer n => .ok n
  | _ => .error ⟨.typeMismatch (.notAnEntier value.ty?), line⟩

/-- A `BOOLEEN`. -/
def asBool (value : Value) (line : Nat) : Except RuntimeError Bool :=
  match value with
  | .boolean b => .ok b
  | _ => .error ⟨.typeMismatch (.notABooleen value.ty?), line⟩

end Value
end Pseudocode
