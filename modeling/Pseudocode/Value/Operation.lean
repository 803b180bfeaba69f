import Pseudocode.Value.Coercion

/-! Operators applied to values. Arithmetic on two `ENTIER` is exact or refused, and a `REEL` on one
side makes it real; `+` also joins texts. Comparisons are within numbers, texts or truth values. -/

namespace Pseudocode
set_option autoImplicit false

/-- A computed result, or the overflow that there is none. -/
def orOverflow {α : Type} (result : Option α) (line : Nat) : Except RuntimeError α :=
  match result with
  | some a => .ok a
  | none => .error ⟨.overflow, line⟩

/-! ## Integers -/

/-- The quotient of two `ENTIER`, rounded down. -/
def Entier.floorDiv (a b : Entier) (line : Nat) : Except RuntimeError Entier :=
  if b = 0 then .error ⟨.divisionByZero, line⟩ else orOverflow (a.floorDiv? b) line

/-- What the quotient rounded down leaves. -/
def Entier.floorMod (a b : Entier) (line : Nat) : Except RuntimeError Entier :=
  if b = 0 then .error ⟨.divisionByZero, line⟩ else .ok (a.floorRemainder b)

namespace Value

/-! ## Arithmetic -/

/-- An arithmetic operator on two real numbers. The result must be finite. -/
def realArithmetic (op : BinOp) (a b : Reel) (line : Nat) : Except RuntimeError Value :=
  let result (x : Reel) := (orOverflow (Reel.finite? x) line).map .real
  match op with
  | .add => result (a + b)
  | .sub => result (a - b)
  | .mul => result (a * b)
  | .div => if b == 0 then .error ⟨.divisionByZero, line⟩ else result (a / b)
  | _ => .error ⟨.typeMismatch (.notArithmetic op), line⟩

/-- An arithmetic operator on two integers. The division `/` gives a real number. -/
def integerArithmetic (op : BinOp) (a b : Entier) (line : Nat) : Except RuntimeError Value :=
  match op with
  | .add => (orOverflow (a.add? b) line).map .integer
  | .sub => (orOverflow (a.sub? b) line).map .integer
  | .mul => (orOverflow (a.mul? b) line).map .integer
  | .intDiv => (a.floorDiv b line).map .integer
  | .mod => (a.floorMod b line).map .integer
  | _ => realArithmetic op (Reel.ofEntier a) (Reel.ofEntier b) line

/-- An arithmetic operator on two values. -/
def arithmetic (op : BinOp) (left right : Value) (line : Nat) : Except RuntimeError Value :=
  match left, right with
  | .integer a, .integer b => integerArithmetic op a b line
  | _, _ =>
    match left.reel?, right.reel? with
    | some a, some b =>
      if op = .intDiv ∨ op = .mod then
        .error ⟨.typeMismatch (.needsEntiers op left.ty? right.ty?), line⟩
      else realArithmetic op a b line
    | _, _ =>
      match op, left.text?, right.text? with
      | .add, some a, some b => .ok (.string (a ++ b))
      | _, _, _ => .error ⟨.typeMismatch (.cannotApply op left.ty? right.ty?), line⟩

/-! ## Comparison -/

/-- The order of two texts: by the first byte of their UTF-8 in which they differ, and a text before
those it starts. -/
def textOrder (a b : String) : Ordering :=
  List.compareLex compare a.toUTF8.data.toList b.toUTF8.data.toList

/-- The order of two real numbers; what is not a number has none. -/
def realOrder? (a b : Reel) : Option Ordering :=
  if a < b then some .lt else if a == b then some .eq else if b < a then some .gt else none

/-- The order of two values: nothing inside unless they are of one kind, and no order there if one
of them is not a number. -/
def order? (left right : Value) : Option (Option Ordering) :=
  match left, right with
  | .integer a, .integer b => some (some (compare a.toInt b.toInt))
  | .boolean a, .boolean b => some (some (compare a b))
  | _, _ =>
    match left.reel?, right.reel? with
    | some a, some b => some (realOrder? a b)
    | _, _ =>
      match left.text?, right.text? with
      | some a, some b => some (some (textOrder a b))
      | _, _ => none

/-- Whether a comparison holds of two values in the given order. Values without an order are only
different. -/
def holds (op : BinOp) : Option Ordering → Bool
  | none => op == .notEqual
  | some order =>
    match op with
    | .equal => order == .eq
    | .notEqual => order != .eq
    | .less => order == .lt
    | .greater => order == .gt
    | .lessEqual => order != .gt
    | .greaterEqual => order != .lt
    | _ => false

/-- A comparison of two values. -/
def comparison (op : BinOp) (left right : Value) (line : Nat) : Except RuntimeError Value :=
  match order? left right with
  | some order => .ok (.boolean (holds op order))
  | none => .error ⟨.typeMismatch (.cannotCompare op left.ty? right.ty?), line⟩

/-! ## Operators -/

/-- Whether the first operand of `ET` or `OU` already gives the result. -/
def decides (op : BinOp) (left : Bool) : Bool :=
  if op = .and then !left else left

/-- `ET` or `OU` on two values. The second one is only looked at when the first does not decide. -/
def logic (op : BinOp) (left right : Value) (line : Nat) : Except RuntimeError Value := do
  let first ← left.asBool line
  if decides op first then return .boolean first
  else return .boolean (← right.asBool line)

/-- An operator between two values. -/
def binary (op : BinOp) (left right : Value) (line : Nat) : Except RuntimeError Value :=
  match op.family with
  | .arithmetic => arithmetic op left right line
  | .comparison => comparison op left right line
  | .logic => logic op left right line

/-- An operator in front of a value. -/
def unary (op : UnOp) (value : Value) (line : Nat) : Except RuntimeError Value :=
  match op with
  | .negate =>
    match value with
    | .integer n => (orOverflow n.neg? line).map .integer
    | .real x => .ok (.real (-x))
    | _ => .error ⟨.typeMismatch (.negate value.ty?), line⟩
  | .not => (value.asBool line).map fun b => .boolean !b

end Value
end Pseudocode
