import Pseudocode.Machine.Call

/-! # Plans: what a program is about to do, written down

The evaluator is a family of functions, and its loops and calls count down the steps and the depth
that are left. Here the same computations are written down as trees in which loops and calls have no
bound at all:

* `Primitive`: the elementary computations, each by its name and its arguments.
* `Plan`: primitives in sequence, the three loops, and calls.
* `Expr.plan`, `Statement.plan`, `Program.plan`: the plans of the constructs of the language.
* `Plan.denote`: what a plan does once it is known what calls do. `eval_eq_denote` and
  `execBlock_eq_denote` say that this is what the evaluator does.

Every statement about all expressions and statements then has seven cases, one for each form of a
plan, and not one for each construct. -/

namespace Pseudocode
set_option autoImplicit false
open Run

/-! ## Primitives -/

/-- Where a computation stands: in an expression, in a statement or at the level of the program. -/
inductive Place where
  | expression
  | statement
  | program
deriving DecidableEq

/-- Whether what stands at the second place may also stand at the first: an expression is part of a
statement, and both are part of a program. -/
def Place.covers : Place → Place → Bool
  | .program, _ | .statement, .statement | .statement, .expression
  | .expression, .expression => true
  | _, _ => false

/-- An elementary computation. -/
inductive Primitive : Type → Type 1 where
  | give {α : Type} (result : Except RuntimeError α) : Primitive α
  | load (name : String) (line : Nat) : Primitive Value
  | findRoutine (name : String) : Primitive (Option Routine)
  | chargeCall (name : String) (line : Nat) : Primitive Unit
  | assign (name : String) (value : Value) (line : Nat) : Primitive Unit
  | checkCounter (name : String) (line : Nat) : Primitive Unit
  | readInto (name : String) (line : Nat) : Primitive Unit
  | writeLine (text : String) : Primitive Unit
  | chargeTurn (line : Nat) : Primitive Unit
  | register (routine : Routine) : Primitive Unit
  | define (constant : ConstDecl) (value : Value) : Primitive Unit
  | declare (name : String) (ty : Ty) (line : Nat) : Primitive Unit

namespace Primitive

def run {α : Type} : Primitive α → Run α
  | give result => lift result
  | load name line => Run.load name line
  | findRoutine name => do return (← get).routine? name
  | chargeCall name line => Run.chargeCall name line
  | assign name value line => Run.assign name value line
  | checkCounter name line => Run.checkCounter name line
  | readInto name line => Run.readInto name line
  | writeLine text => Run.writeLine text
  | chargeTurn line => Run.chargeTurn line
  | register routine => Program.registerRoutines [routine]
  | define constant value => Program.bindConstant constant value
  | declare name ty line => Program.changeGlobals (·.declare name ty line)

/-- The innermost place at which an elementary computation occurs. -/
def place {α : Type} : Primitive α → Place
  | give _ | load _ _ | findRoutine _ | chargeCall _ _ => .expression
  | assign _ _ _ | checkCounter _ _ | readInto _ _ | writeLine _ | chargeTurn _ => .statement
  | register _ | define _ _ | declare _ _ _ => .program

end Primitive

/-! ## Plans -/

/-- So many values. -/
abbrev Values (count : Nat) := { values : List Value // values.length = count }

/-- A computation that is still to be done. A routine is called with one value for each of its
parameters. -/
inductive Plan : Type → Type 1 where
  | pure {α : Type} (a : α) : Plan α
  | prim {α : Type} (primitive : Primitive α) : Plan α
  | bind {α β : Type} (first : Plan β) (next : β → Plan α) : Plan α
  | whileLoop (condition : Plan Bool) (body : Plan Flow) (line : Nat) : Plan Flow
  | repeatLoop (body : Plan Flow) (condition : Plan Bool) (line : Nat) : Plan Flow
  /-- The turns of a loop over integers from `value` on. -/
  | countLoop (name : String) (value last step : Entier) (nonzero : step.toInt ≠ 0)
      (body : Plan Flow) (line : Nat) : Plan Flow
  | call (routine : Routine) (values : Values routine.params.length) (line : Nat) :
      Plan (Option Value)

namespace Plan

instance : Monad Plan where
  pure := .pure
  bind := .bind

/-- The result of an operation on values, or its error. -/
def give {α : Type} (result : Except RuntimeError α) : Plan α := .prim (.give result)

def refuse {α : Type} (cause : RuntimeCause) (line : Nat) : Plan α := give (.error ⟨cause, line⟩)

/-- Two plans in a row; the second one is left out when the first returns. -/
def andThen (first next : Plan Flow) : Plan Flow := do
  match ← first with
  | .normal => next
  | .returned value => return .returned value

/-- The truth value that a plan yields. -/
def test (condition : Plan Value) (line : Nat) : Plan Bool := do
  give ((← condition).asBool line)

def logic (op : BinOp) (left right : Plan Value) (line : Nat) : Plan Value := do
  let first ← test left line
  if Value.decides op first then return .boolean first
  else return .boolean (← test right line)

/-- One turn of a loop with its test before the body, and the loop again. -/
def whileTurn (condition : Plan Bool) (body : Plan Flow) (line : Nat) : Plan Flow := do
  if ← condition then
    andThen body do prim (.chargeTurn line); whileLoop condition body line
  else return .normal

/-- One turn of a loop with its test after the body, and the loop again. -/
def repeatTurn (body : Plan Flow) (condition : Plan Bool) (line : Nat) : Plan Flow :=
  andThen body do
    if ← condition then return .normal
    else prim (.chargeTurn line); repeatLoop body condition line

/-- One turn of a loop over integers, and the loop again. It also ends where the next integer would
not be an `ENTIER`. -/
def countTurn (name : String) (value last step : Entier) (nonzero : step.toInt ≠ 0)
    (body : Plan Flow) (line : Nat) : Plan Flow :=
  if 0 < step.toInt ∧ value.toInt ≤ last.toInt ∨ step.toInt < 0 ∧ last.toInt ≤ value.toInt then
    andThen (do prim (.assign name (.integer value) line); body) do
      prim (.chargeTurn line)
      match value.add? step with
      | some next => countLoop name next last step nonzero body line
      | none => return .normal
  else return .normal

/-- A loop over integers: its variable is checked, and its bounds are computed, before the turns. -/
def forLoop (name : String) (first last step : Plan Value) (body : Plan Flow) (line : Nat) :
    Plan Flow := do
  prim (.checkCounter name line)
  let first ← give ((← first).asEntier line)
  let last ← give ((← last).asEntier line)
  let step ← give ((← step).asEntier line)
  if h : step.toInt = 0 then refuse .invalidLoopStep line
  else countLoop name first last step h body line

/-- A call of a built-in function or a routine by its name. -/
def callNamed (name : String) (count : Nat) (arguments : Plan (Values count)) (line : Nat) :
    Plan (Option Value) := do
  match Builtin.find? name with
  | some builtin =>
    let ⟨values, _⟩ ← arguments
    if values.length = builtin.arity then return some (← give (builtin.apply values line))
    else refuse (.arityError name builtin.arity values.length) line
  | none =>
    match ← prim (.findRoutine name) with
    | none => refuse (.unknownFunction name) line
    | some routine =>
      if h : count = routine.params.length then
        let ⟨values, fits⟩ ← arguments
        call routine ⟨values, fits.trans h⟩ line
      else refuse (.arityError routine.name routine.params.length count) line

/-- The value that a call must have yielded. -/
def required (name : String) (line : Nat) : Option Value → Plan Value
  | some value => return value
  | none => refuse (.noReturnValue name) line

/-- A call that must yield a value. -/
def callForValue (name : String) (count : Nat) (arguments : Plan (Values count)) (line : Nat) :
    Plan Value := do
  match (← prim (.findRoutine name)).map Routine.kind with
  | some .procedure => refuse (.noReturnValue name) line
  | _ => required name line (← callNamed name count arguments line)

def readAll (line : Nat) : List String → Plan Unit
  | [] => return ()
  | name :: rest => do prim (.readInto name line); readAll line rest

end Plan

/-! ## The plans of the language -/

mutual

def Expr.plan : Expr → Plan Value
  | .literal value _ => return value.toValue
  | .var name line => .prim (.load name line)
  | .unary op operand line => do .give (Value.unary op (← operand.plan) line)
  | .binary left op right line =>
    if op.family = .logic then Plan.logic op left.plan right.plan line
    else do
      let a ← left.plan
      let b ← right.plan
      .give (Value.binary op a b line)
  | .call name arguments line =>
    Plan.callForValue name arguments.length (planAll arguments) line

def planAll : (exprs : List Expr) → Plan (Values exprs.length)
  | [] => return ⟨[], rfl⟩
  | first :: rest => do
    let value ← first.plan
    let ⟨values, fits⟩ ← planAll rest
    return ⟨value :: values, congrArg (· + 1) fits⟩

end

def planStep : Option Expr → Plan Value
  | none => return .integer 1
  | some step => step.plan

mutual

def Statement.plan : Statement → Plan Flow
  | .assign target value line => do
    .prim (.assign target (← value.plan) line)
    return .normal
  | .read targets line => do
    Plan.readAll line targets
    return .normal
  | .write values _ => do
    let ⟨values, _⟩ ← planAll values
    .prim (.writeLine (String.join (values.map Value.text)))
    return .normal
  | .branch condition thenBlock elseBlock line => do
    if ← Plan.test condition.plan line then planBlock thenBlock
    else planElse elseBlock
  | .forLoop name first last step body line =>
    Plan.forLoop name first.plan last.plan (planStep step) (planBlock body) line
  | .whileLoop condition body line =>
    .whileLoop (Plan.test condition.plan line) (planBlock body) line
  | .repeatLoop body condition line =>
    .repeatLoop (planBlock body) (Plan.test condition.plan line) line
  | .call name arguments line => do
    let _ ← Plan.callNamed name arguments.length (planAll arguments) line
    return .normal
  | .ret none _ => return .returned none
  | .ret (some value) _ => return .returned (some (← value.plan))

def planBlock : List Statement → Plan Flow
  | [] => return .normal
  | first :: rest => Plan.andThen first.plan (planBlock rest)

def planElse : Option (List Statement) → Plan Flow
  | none => return .normal
  | some block => planBlock block

end

namespace Program

def planRoutines : List Routine → Plan Unit
  | [] => return ()
  | routine :: rest => do .prim (.register routine); planRoutines rest

def planConstants : List ConstDecl → Plan Unit
  | [] => return ()
  | constant :: rest => do
    .prim (.define constant (← constant.value.plan))
    planConstants rest

def planVariables : List (String × Ty × Nat) → Plan Unit
  | [] => return ()
  | (name, ty, line) :: rest => do .prim (.declare name ty line); planVariables rest

def plan (program : Program) : Plan Unit := do
  planRoutines program.routines
  planConstants program.constants
  planVariables (VarDecl.flatten program.declarations)
  let _ ← planBlock program.statements

end Program

/-! ## What plans do -/

namespace Plan

/-- What a plan does, given what calls do. -/
def denote {α : Type} (invoke : Invoke) : Plan α → Run α
  | .pure a => Pure.pure a
  | .prim primitive => primitive.run
  | .bind first next => first.denote invoke >>= fun b => (next b).denote invoke
  | .whileLoop condition body line =>
    Run.whileLoop (condition.denote invoke) (body.denote invoke) line
  | .repeatLoop body condition line =>
    Run.repeatLoop (body.denote invoke) (condition.denote invoke) line
  | .countLoop name value last step _ body line =>
    forTurns name last step (body.denote invoke) line value
  | .call routine values line => invoke routine values.1 line

section Denote
variable (invoke : Invoke)

@[simp] theorem denote_return {α : Type} (a : α) :
    (Pure.pure a : Plan α).denote invoke = Pure.pure a := rfl

@[simp] theorem denote_then {α β : Type} (first : Plan β) (next : β → Plan α) :
    (first >>= next).denote invoke = first.denote invoke >>= fun b => (next b).denote invoke := rfl

@[simp] theorem denote_prim {α : Type} (primitive : Primitive α) :
    (prim primitive).denote invoke = primitive.run := rfl

@[simp] theorem denote_give {α : Type} (result : Except RuntimeError α) :
    (give result).denote invoke = lift result := rfl

@[simp] theorem denote_refuse {α : Type} (cause : RuntimeCause) (line : Nat) :
    (refuse cause line : Plan α).denote invoke = fail cause line := rfl

@[simp] theorem denote_ite {α : Type} (c : Prop) [Decidable c] (first other : Plan α) :
    (if c then first else other).denote invoke =
      if c then first.denote invoke else other.denote invoke := by
  split <;> rfl

@[simp] theorem denote_dite {α : Type} (c : Prop) [Decidable c] (first : c → Plan α)
    (other : ¬c → Plan α) :
    (if h : c then first h else other h).denote invoke =
      if h : c then (first h).denote invoke else (other h).denote invoke := by
  split <;> rfl

@[simp] theorem denote_andThen (first next : Plan Flow) :
    (andThen first next).denote invoke =
      Run.andThen (first.denote invoke) (next.denote invoke) := by
  unfold andThen Run.andThen
  rw [denote_then]
  congr 1
  funext flow
  cases flow <;> rfl

@[simp] theorem denote_test (condition : Plan Value) (line : Nat) :
    (test condition line).denote invoke = Run.test (condition.denote invoke) line := rfl

@[simp] theorem denote_logic (op : BinOp) (left right : Plan Value) (line : Nat) :
    (logic op left right line).denote invoke =
      Run.logic op (left.denote invoke) (right.denote invoke) line := by
  simp only [logic, Run.logic, denote_then, denote_test, denote_ite, denote_return]

@[simp] theorem denote_forLoop (name : String) (first last step : Plan Value) (body : Plan Flow)
    (line : Nat) :
    (forLoop name first last step body line).denote invoke =
      Run.forLoop name (first.denote invoke) (last.denote invoke) (step.denote invoke)
        (body.denote invoke) line := by
  simp only [forLoop, Run.forLoop, bound, denote_then, denote_give, denote_dite, denote_refuse,
    Primitive.run, bind_assoc, denote, dite_eq_ite]

/-- A loop over integers is one turn and the loop again, from the next integer on. -/
theorem countLoop_eq_turn (name : String) (value last step : Entier) (nonzero : step.toInt ≠ 0)
    (body : Plan Flow) (line : Nat) :
    (countLoop name value last step nonzero body line).denote invoke =
      (countTurn name value last step nonzero body line).denote invoke := by
  unfold countTurn
  rw [denote_ite, denote_andThen, denote, forTurns]
  split
  · rw [denote_then]
    congr 2
    funext _
    cases value.add? step <;> rfl
  · rfl

@[simp] theorem denote_callNamed (name : String) (count : Nat) (arguments : Plan (Values count))
    (line : Nat) :
    (callNamed name count arguments line).denote invoke =
      Run.callNamed invoke name count (Subtype.val <$> arguments.denote invoke) line := by
  unfold callNamed Run.callNamed
  cases Builtin.find? name with
  | some builtin =>
    simp only [denote_then, denote_ite, denote_give, denote_refuse, denote_return, map_eq_pure_bind,
      bind_assoc, pure_bind]
  | none =>
    simp only [denote_then, denote_prim, Primitive.run, bind_assoc, pure_bind]
    congr 1
    funext m
    cases m.routine? name with
    | none => rfl
    | some routine =>
      simp only [denote_dite, denote_then, denote_refuse, denote, map_eq_pure_bind, bind_assoc,
        pure_bind, dite_eq_ite]

@[simp] theorem denote_callForValue (name : String) (count : Nat)
    (arguments : Plan (Values count)) (line : Nat) :
    (callForValue name count arguments line).denote invoke =
      Run.callForValue invoke name count (Subtype.val <$> arguments.denote invoke) line := by
  unfold callForValue Run.callForValue
  simp only [denote_then, denote_prim, Primitive.run, bind_assoc, pure_bind]
  congr 1
  funext m
  rcases (m.routine? name).map Routine.kind with _ | (_ | _)
  case some.procedure => rfl
  -- Whatever else is known of the routine, the call itself is the same one.
  all_goals
    refine (denote_then invoke _ _).trans ?_
    rw [denote_callNamed]
    congr 1
    funext result
    cases result <;> rfl

@[simp] theorem denote_readAll (line : Nat) (names : List String) :
    (readAll line names).denote invoke = Run.readAll line names := by
  induction names with
  | nil => rfl
  | cons name rest ih =>
    simp only [readAll, Run.readAll, denote_then, denote_prim, ih, Primitive.run]

end Denote
end Plan

mutual

theorem eval_eq_denote (invoke : Invoke) :
    ∀ expr : Expr, eval invoke expr = expr.plan.denote invoke
  | .literal _ _ => by rw [eval, Expr.plan]; rfl
  | .var _ _ => by rw [eval, Expr.plan]; rfl
  | .unary op operand line => by
    rw [eval, Expr.plan, Plan.denote_then, eval_eq_denote invoke operand]
    rfl
  | .binary left op right line => by
    rw [eval, Expr.plan, Plan.denote_ite, Plan.denote_logic, eval_eq_denote invoke left,
      eval_eq_denote invoke right]
    rfl
  | .call name arguments line => by
    rw [eval, Expr.plan, Plan.denote_callForValue, evalAll_eq_denote invoke arguments]

theorem evalAll_eq_denote (invoke : Invoke) :
    ∀ exprs : List Expr,
      evalAll invoke exprs = Subtype.val <$> (planAll exprs).denote invoke
  | [] => by rw [evalAll, planAll]; rfl
  | first :: rest => by
    rw [evalAll, planAll, eval_eq_denote invoke first, evalAll_eq_denote invoke rest]
    simp only [Plan.denote_then, Plan.denote_return, map_eq_pure_bind, bind_assoc, pure_bind]

end

theorem evalStep_eq_denote (invoke : Invoke) (step : Option Expr) :
    evalStep invoke step = (planStep step).denote invoke := by
  cases step with
  | none => rfl
  | some step => exact eval_eq_denote invoke step

mutual

theorem exec_eq_denote (invoke : Invoke) :
    ∀ statement : Statement, exec invoke statement = statement.plan.denote invoke
  | .assign target value line => by
    rw [exec, Statement.plan, eval_eq_denote]
    rfl
  | .read targets line => by
    rw [exec, Statement.plan, Plan.denote_then, Plan.denote_readAll]
    rfl
  | .write values _ => by
    rw [exec, Statement.plan, evalAll_eq_denote, map_eq_pure_bind, bind_assoc]
    rfl
  | .branch condition thenBlock elseBlock line => by
    rw [exec, Statement.plan, Plan.denote_then, Plan.denote_test, eval_eq_denote,
      execBlock_eq_denote invoke thenBlock, execElse_eq_denote invoke elseBlock]
    simp only [Plan.denote_ite]
  | .forLoop name first last step body line => by
    rw [exec, Statement.plan, Plan.denote_forLoop, eval_eq_denote, eval_eq_denote,
      evalStep_eq_denote, execBlock_eq_denote invoke body]
  | .whileLoop condition body line => by
    rw [exec, Statement.plan, Plan.denote, Plan.denote_test, eval_eq_denote,
      execBlock_eq_denote invoke body]
  | .repeatLoop body condition line => by
    rw [exec, Statement.plan, Plan.denote, Plan.denote_test, eval_eq_denote,
      execBlock_eq_denote invoke body]
  | .call name arguments line => by
    rw [exec, Statement.plan, Plan.denote_then, Plan.denote_callNamed, evalAll_eq_denote]
    rfl
  | .ret none _ => by rw [exec, Statement.plan]; rfl
  | .ret (some value) _ => by
    rw [exec, Statement.plan, eval_eq_denote]
    rfl

theorem execBlock_eq_denote (invoke : Invoke) :
    ∀ block : List Statement, execBlock invoke block = (planBlock block).denote invoke
  | [] => by rw [execBlock, planBlock]; rfl
  | first :: rest => by
    rw [execBlock, planBlock, Plan.denote_andThen, exec_eq_denote invoke first,
      execBlock_eq_denote invoke rest]

theorem execElse_eq_denote (invoke : Invoke) :
    ∀ block : Option (List Statement), execElse invoke block = (planElse block).denote invoke
  | none => by rw [execElse, planElse]; rfl
  | some block => by rw [execElse, planElse, execBlock_eq_denote invoke block]

end

/-! ## Plans on a machine -/

theorem Expr.run_eq_denote (expr : Expr) (m : Machine) :
    expr.run m = expr.plan.denote (invoke m.depthLeft) m := by
  rw [← eval_eq_denote]
  rfl

theorem runBlock_eq_denote (block : List Statement) (m : Machine) :
    runBlock block m = (planBlock block).denote (invoke m.depthLeft) m := by
  rw [← execBlock_eq_denote]
  rfl

theorem runCall_eq_denote (name : String) (arguments : List Expr) (line : Nat) (m : Machine) :
    runCall name arguments line m =
      (Plan.callNamed name arguments.length (planAll arguments) line).denote
        (invoke m.depthLeft) m := by
  rw [Plan.denote_callNamed, ← evalAll_eq_denote]
  rfl

end Pseudocode
