import Pseudocode.Token

/-! Programs as trees. Every node carries the line it starts on, which is where its errors point. -/

namespace Pseudocode
set_option autoImplicit false

/-- An expression. The line of a binary one is that of its operator. -/
inductive Expr where
  | literal (value : Literal) (line : Nat)
  | var (name : String) (line : Nat)
  | unary (op : UnOp) (operand : Expr) (line : Nat)
  | binary (left : Expr) (op : BinOp) (right : Expr) (line : Nat)
  | call (name : String) (arguments : List Expr) (line : Nat)

/-- A statement. -/
inductive Statement where
  | assign (target : String) (value : Expr) (line : Nat)
  /-- One input for each target, in order. -/
  | read (targets : List String) (line : Nat)
  /-- The values one after the other, and the end of a line. -/
  | write (values : List Expr) (line : Nat)
  | branch (condition : Expr) (thenBlock : List Statement) (elseBlock : Option (List Statement))
      (line : Nat)
  /-- A loop over integers; the step is one unless given. -/
  | forLoop (name : String) (first last : Expr) (step : Option Expr) (body : List Statement)
      (line : Nat)
  /-- A loop with its test before the body. -/
  | whileLoop (condition : Expr) (body : List Statement) (line : Nat)
  /-- A loop with its test after the body, left once the test holds. -/
  | repeatLoop (body : List Statement) (condition : Expr) (line : Nat)
  | call (name : String) (arguments : List Expr) (line : Nat)
  /-- The end of a routine, with a value in a function. -/
  | ret (value : Option Expr) (line : Nat)

/-- Names declared together with one type. -/
structure VarDecl where
  names : List String
  ty : Ty
  line : Nat
deriving DecidableEq, Repr

/-- The declared names one by one, each with the type and the line of its declaration. -/
def VarDecl.flatten (declarations : List VarDecl) : List (String × Ty × Nat) :=
  declarations.flatMap fun d => d.names.map fun name => (name, d.ty, d.line)

/-- A constant; without a declared type it has that of its value. -/
structure ConstDecl where
  name : String
  ty? : Option Ty
  value : Expr
  line : Nat

/-- A parameter of a routine. -/
structure Param where
  name : String
  ty : Ty
deriving DecidableEq, Repr

/-- What a routine is: a procedure gives no value, a function gives one. -/
inductive RoutineKind where
  | procedure
  | function
deriving DecidableEq, Repr

/-- A routine. -/
structure Routine where
  kind : RoutineKind
  name : String
  params : List Param
  /-- The type of the value of a function. -/
  returnType? : Option Ty
  locals : List VarDecl
  body : List Statement
  line : Nat

/-- A program: its declarations and its main block. -/
structure Program where
  name : Option String
  constants : List ConstDecl
  declarations : List VarDecl
  routines : List Routine
  statements : List Statement

end Pseudocode
