import Pseudocode.Builtin.Apply
import Pseudocode.Machine.Loop

/-! What expressions yield and statements do, given what calls of routines do. The definitions follow
the structure of the program; `Invoke` stands for the one step that does not. -/

namespace Pseudocode
set_option autoImplicit false

/-- What the call of a routine does with the values of its arguments, from the given line. -/
abbrev Invoke := Routine → List Value → Nat → Run (Option Value)

namespace Run

/-! ## Calls -/

/-- Calls a built-in function or a routine by its name, with `count` arguments that are computed when
they are needed. Built-in functions come first. -/
def callNamed (invoke : Invoke) (name : String) (count : Nat) (arguments : Run (List Value))
    (line : Nat) : Run (Option Value) := do
  match Builtin.find? name with
  | some builtin =>
    let values ← arguments
    if values.length = builtin.arity then some <$> lift (builtin.apply values line)
    else fail (.arityError name builtin.arity values.length) line
  | none =>
    match (← get).routine? name with
    | none => fail (.unknownFunction name) line
    | some routine =>
      if count = routine.params.length then invoke routine (← arguments) line
      else fail (.arityError routine.name routine.params.length count) line

/-- A call that must yield a value. A procedure is refused before its arguments are computed. -/
def callForValue (invoke : Invoke) (name : String) (count : Nat) (arguments : Run (List Value))
    (line : Nat) : Run Value := do
  match ((← get).routine? name).map Routine.kind with
  | some .procedure => fail (.noReturnValue name) line
  | _ =>
    match ← callNamed invoke name count arguments line with
    | some value => return value
    | none => fail (.noReturnValue name) line

end Run

open Run

/-! ## Expressions -/

mutual

/-- The value of an expression. -/
def eval (invoke : Invoke) : Expr → Run Value
  | .literal value _ => return value.toValue
  | .var name line => load name line
  | .unary op operand line => do
    let value ← eval invoke operand
    lift (Value.unary op value line)
  | .binary left op right line =>
    if op.family = .logic then logic op (eval invoke left) (eval invoke right) line
    else do
      let a ← eval invoke left
      let b ← eval invoke right
      lift (Value.binary op a b line)
  | .call name arguments line =>
    callForValue invoke name arguments.length (evalAll invoke arguments) line

/-- The values of expressions, from the first to the last. -/
def evalAll (invoke : Invoke) : List Expr → Run (List Value)
  | [] => return []
  | first :: rest => do
    let value ← eval invoke first
    return value :: (← evalAll invoke rest)

end

/-- The step of a loop over integers, which is one unless given. -/
def evalStep (invoke : Invoke) : Option Expr → Run Value
  | none => return .integer 1
  | some step => eval invoke step

/-! ## Statements -/

mutual

/-- What a statement does. -/
def exec (invoke : Invoke) : Statement → Run Flow
  | .assign target value line => do
    assign target (← eval invoke value) line
    return .normal
  | .read targets line => do
    readAll line targets
    return .normal
  | .write values _ => do
    let values ← evalAll invoke values
    writeLine (String.join (values.map Value.text))
    return .normal
  | .branch condition thenBlock elseBlock line => do
    if ← test (eval invoke condition) line then execBlock invoke thenBlock
    else execElse invoke elseBlock
  | .forLoop name first last step body line =>
    forLoop name (eval invoke first) (eval invoke last) (evalStep invoke step)
      (execBlock invoke body) line
  | .whileLoop condition body line =>
    whileLoop (test (eval invoke condition) line) (execBlock invoke body) line
  | .repeatLoop body condition line =>
    repeatLoop (execBlock invoke body) (test (eval invoke condition) line) line
  | .call name arguments line => do
    let _ ← callNamed invoke name arguments.length (evalAll invoke arguments) line
    return .normal
  | .ret none _ => return .returned none
  | .ret (some value) _ => return .returned (some (← eval invoke value))

/-- What the statements of a block do, up to the first that returns. -/
def execBlock (invoke : Invoke) : List Statement → Run Flow
  | [] => return .normal
  | first :: rest => andThen (exec invoke first) (execBlock invoke rest)

/-- What the other block of a branch does, if there is one. -/
def execElse (invoke : Invoke) : Option (List Statement) → Run Flow
  | none => return .normal
  | some block => execBlock invoke block

end

end Pseudocode
