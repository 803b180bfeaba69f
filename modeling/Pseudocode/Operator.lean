/-! The operators of expressions and how tightly they bind. -/

namespace Pseudocode
set_option autoImplicit false

/-- An operator between two operands. -/
inductive BinOp where
  | add
  | sub
  | mul
  /-- Division of real numbers. -/
  | div
  /-- Division of integers, rounded down. -/
  | intDiv
  /-- What the division of integers leaves. -/
  | mod
  | equal
  | notEqual
  | less
  | greater
  | lessEqual
  | greaterEqual
  | and
  | or
deriving DecidableEq, Repr

/-- An operator in front of its operand. -/
inductive UnOp where
  /-- The opposite of a number. -/
  | negate
  /-- The negation of a truth value. -/
  | not
deriving DecidableEq, Repr

namespace BinOp

/-- How an operator is written. -/
def text : BinOp → String
  | .add => "+"
  | .sub => "-"
  | .mul => "*"
  | .div => "/"
  | .intDiv => "DIV"
  | .mod => "MOD"
  | .equal => "="
  | .notEqual => "<>"
  | .less => "<"
  | .greater => ">"
  | .lessEqual => "<="
  | .greaterEqual => ">="
  | .and => "ET"
  | .or => "OU"

/-- The level of an operator, from the tightest at zero to the loosest at four. Operators of one
level group from the left. -/
def level : BinOp → Nat
  | .mul | .div | .intDiv | .mod => 0
  | .add | .sub => 1
  | .equal | .notEqual | .less | .greater | .lessEqual | .greaterEqual => 2
  | .and => 3
  | .or => 4

/-- The number of levels. -/
def levels : Nat := 5

/-- What an operator does with its operands. -/
inductive Family where
  | arithmetic
  | comparison
  | logic
deriving DecidableEq, Repr

/-- The family of an operator. -/
def family : BinOp → Family
  | .add | .sub | .mul | .div | .intDiv | .mod => .arithmetic
  | .equal | .notEqual | .less | .greater | .lessEqual | .greaterEqual => .comparison
  | .and | .or => .logic

end BinOp

/-- How an operator in front of its operand is written. -/
def UnOp.text : UnOp → String
  | .negate => "-"
  | .not => "NON"

end Pseudocode
