import Pseudocode.Machine.Eval

/-! Calls of routines. A call pays a step and opens a scope; the number of scopes is limited, and it
is what the depth of calls is counted down from. -/

namespace Pseudocode
set_option autoImplicit false

namespace Routine

/-- Binds the parameters of a routine to values, each as one of its type. -/
def bindParams (routine : Routine) (line : Nat) :
    Environment → List (Param × Value) → Except RuntimeError Environment
  | env, [] => .ok env
  | env, (param, value) :: rest => do
    let converted ← value.coerce param.ty (.param param.name routine.name) line
    let env ← env.define param.name param.ty converted false routine.line
    routine.bindParams line env rest

/-- The scope of a call: the parameters with their values, and the local variables. -/
def frame (routine : Routine) (values : List Value) (line : Nat) :
    Except RuntimeError Environment := do
  let env ← routine.bindParams line .empty (routine.params.zip values)
  env.declareAll (VarDecl.flatten routine.locals)

/-- What a call yields, by how the body of the routine ended. A function without a type, which the
grammar does not allow, yields what was returned. -/
def result (routine : Routine) (flow : Flow) (line : Nat) : Except RuntimeError (Option Value) :=
  match routine.kind, flow with
  | .procedure, _ => .ok none
  | .function, .returned (some value) =>
    match routine.returnType? with
    | some ty => (value.coerce ty (.result routine.name) line).map some
    | none => .ok (some value)
  | .function, _ => .error ⟨.missingReturn routine.name, routine.line⟩

end Routine

open Run

/-- Calls a routine, inside of which at most `depth` more calls may be active at the same time. -/
def invoke : Nat → Invoke
  | 0 => fun routine _ line => do
    chargeCall routine.name line
    fail (.unboundedRecursion routine.name (.depth (← get).limits.maxDepth)) line
  | depth + 1 => fun routine values line => do
    chargeCall routine.name line
    let frame ← lift (routine.frame values line)
    let flow ← inFrame frame (execBlock (invoke depth) routine.body)
    lift (routine.result flow line)

/-! ## Computations of programs -/

/-- What calls do on a machine in its present state. -/
def invokeHere : Run Invoke := do
  return invoke (← get).depthLeft

/-- Computes the value of an expression. -/
def Expr.run (expr : Expr) : Run Value := do
  eval (← invokeHere) expr

/-- Runs the statements of a block. -/
def runBlock (statements : List Statement) : Run Flow := do
  execBlock (← invokeHere) statements

/-- Calls a built-in function or a routine with the given arguments. -/
def runCall (name : String) (arguments : List Expr) (line : Nat) : Run (Option Value) := do
  let invoke ← invokeHere
  callNamed invoke name arguments.length (evalAll invoke arguments) line

/-- Computes `ET` or `OU` of two expressions. -/
def runLogic (op : BinOp) (left right : Expr) (line : Nat) : Run Value := do
  let invoke ← invokeHere
  logic op (eval invoke left) (eval invoke right) line

namespace Program

/-- Makes routines known, all of which have different names. -/
def registerRoutines : List Routine → Run Unit
  | [] => pure ()
  | routine :: rest => do
    let m ← get
    match m.routine? routine.name with
    | some _ => fail (.functionAlreadyDefined routine.name) routine.line
    | none =>
      MonadState.set
        { m with routines := m.routines ++ [(Text.nameKey routine.name, routine)] }
      registerRoutines rest

/-- Applies a change to the scope of the main program. -/
def changeGlobals (change : Environment → Except RuntimeError Environment) : Run Unit := do
  let m ← get
  let globals ← lift (change m.globals)
  MonadState.set { m with globals }

/-- Binds a constant to its value. Its type is that of the value unless another one is declared. -/
def bindConstant (constant : ConstDecl) (value : Value) : Run Unit := do
  match constant.ty?.or value.ty? with
  | none => fail (.uninitializedVariable constant.name) constant.line
  | some ty =>
    let converted ← lift (value.coerce ty (.const constant.name) constant.line)
    changeGlobals (·.define constant.name ty converted true constant.line)

/-- Defines a constant. -/
def defineConstant (constant : ConstDecl) : Run Unit := do
  bindConstant constant (← constant.value.run)

/-- Defines constants, in order. -/
def defineConstants : List ConstDecl → Run Unit
  | [] => pure ()
  | constant :: rest => do defineConstant constant; defineConstants rest

/-- Declares the variables of the main program, in order. -/
def declareVariables : List (String × Ty × Nat) → Run Unit
  | [] => pure ()
  | (name, ty, line) :: rest => do
    changeGlobals (·.declare name ty line)
    declareVariables rest

/-- Runs a program: its routines become known, its constants are defined, its variables declared,
and then its main block runs. -/
def run (program : Program) : Run Unit := do
  registerRoutines program.routines
  defineConstants program.constants
  declareVariables (VarDecl.flatten program.declarations)
  let _ ← runBlock program.statements

end Program
end Pseudocode
