import Pseudocode.Environment
import Pseudocode.Program
import Pseudocode.Value.Input
import Pseudocode.Value.Operation

/-! The machine that runs programs: scopes, routines, inputs, output, budgets and a clock. A
computation on it either yields a value or stops with an error, and the machine stays as it was at
that moment. -/

namespace Pseudocode
set_option autoImplicit false

/-! ## Time -/

/-- A length of time. -/
structure Duration where
  nanos : Nat
deriving DecidableEq, Repr

namespace Duration

/-- So many milliseconds. -/
def ofMillis (millis : Nat) : Duration := ⟨millis * 1000000⟩

/-- The whole milliseconds in it. -/
def millis (duration : Duration) : Nat := duration.nanos / 1000000

end Duration

/-- The clock of a run: the time since its start that is read after so many steps. The readings may
be any. -/
abbrev Clock := Nat → Duration

/-- A clock on which every step takes a nanosecond. -/
def Clock.steady : Clock := fun steps => ⟨steps⟩

/-! ## State -/

/-- The budgets of a run. -/
structure Limits where
  /-- Turns of loops and calls of routines in one run. -/
  maxSteps : Nat
  /-- Calls that are active at the same time. -/
  maxDepth : Nat
  /-- Time since the start of the run, if it is limited. -/
  timeout : Option Duration
deriving DecidableEq, Repr

/-- The budgets of a run for which none are given. -/
def Limits.standard : Limits := ⟨100000, 1000, none⟩

/-- The state of a run. -/
structure Machine where
  /-- The constants and variables of the main program. -/
  globals : Environment
  /-- The scopes of the active calls, the innermost first. -/
  frames : List Environment
  /-- The routines, each with the key of its name. -/
  routines : List (String × Routine)
  /-- The inputs that are not read yet. -/
  inputs : List String
  /-- The number of inputs at the start. -/
  supplied : Nat
  output : String
  /-- The turns of loops and calls of routines so far. -/
  steps : Nat
  limits : Limits
  clock : Clock

/-- A computation on the machine. -/
abbrev Run (α : Type) := EStateM RuntimeError Machine α

namespace Machine

/-- The machine at the start of a run. -/
def initial (inputs : List String) (limits : Limits) (clock : Clock) : Machine where
  globals := .empty
  frames := []
  routines := []
  inputs := inputs
  supplied := inputs.length
  output := ""
  steps := 0
  limits := limits
  clock := clock

/-- The scope that statements run in: that of the innermost call, or that of the main program. -/
def scope (m : Machine) : Environment := m.frames.head?.getD m.globals

/-- The binding that a name stands for. A call sees its own scope and the constants of the main
program. -/
def resolve? (m : Machine) (name : String) : Option Binding :=
  match m.scope.get? name with
  | some binding => some binding
  | none => if m.frames.isEmpty then none else (m.globals.get? name).filter (·.constant)

/-- Stores a value in the scope that statements run in. -/
def set (m : Machine) (name : String) (value : Value) : Machine :=
  match m.frames with
  | [] => { m with globals := m.globals.set name value }
  | frame :: rest => { m with frames := frame.set name value :: rest }

/-- Opens a scope of its own for a call. -/
def push (m : Machine) (frame : Environment) : Machine := { m with frames := frame :: m.frames }

/-- Closes the scope of the innermost call. -/
def pop (m : Machine) : Machine := { m with frames := m.frames.tail }

/-- The routine of a name. -/
def routine? (m : Machine) (name : String) : Option Routine :=
  m.routines.lookup (Text.nameKey name)

/-- The number of steps that are left. -/
def stepsLeft (m : Machine) : Nat := m.limits.maxSteps - m.steps

/-- The number of calls that may still become active inside the active ones. -/
def depthLeft (m : Machine) : Nat := m.limits.maxDepth - m.frames.length

/-- The time since the start of the run, as the clock shows it now. -/
def elapsed (m : Machine) : Duration := m.clock m.steps

/-- The time that the run was given, once more than that has passed. -/
def overdue? (m : Machine) : Option Duration :=
  m.limits.timeout.filter fun given => given.nanos < m.elapsed.nanos

end Machine

namespace Run

/-! ## Elementary computations -/

/-- Stops with an error. -/
def fail {α : Type} (cause : RuntimeCause) (line : Nat) : Run α := throw ⟨cause, line⟩

/-- The result of an operation on values, or its error. -/
def lift {α : Type} : Except RuntimeError α → Run α
  | .ok a => pure a
  | .error e => throw e

/-- The binding that a name stands for. -/
def resolve (name : String) (line : Nat) : Run Binding := do
  match (← get).resolve? name with
  | some binding => return binding
  | none => fail (.undeclaredVariable name) line

/-- The binding of a name that may be assigned to. -/
def resolveVariable (name : String) (line : Nat) : Run Binding := do
  let binding ← resolve name line
  if binding.constant then fail (.constantAssignment name) line else return binding

/-- The value of a variable or constant, which must have one. -/
def load (name : String) (line : Nat) : Run Value := do
  let binding ← resolve name line
  if binding.value = .uninitialized then fail (.uninitializedVariable name) line
  else return binding.value

/-- Stores a value in a variable, as one of its type. -/
def assign (name : String) (value : Value) (line : Nat) : Run Unit := do
  let binding ← resolveVariable name line
  let converted ← lift (value.coerce binding.ty (.var name) line)
  modify (·.set name converted)

/-- Takes the next input, which is for the variable of that name. -/
def takeInput (name : String) (line : Nat) : Run String := do
  let m ← get
  match m.inputs with
  | [] => fail (.inputExhausted name m.supplied) line
  | raw :: rest => do
    MonadState.set { m with inputs := rest }
    return raw

/-- Reads an input into a variable. Nothing is taken for a name that cannot be assigned to. -/
def readInto (name : String) (line : Nat) : Run Unit := do
  let binding ← resolveVariable name line
  let raw ← takeInput name line
  let value ← lift (Value.ofInput raw binding.ty name line)
  assign name value line

/-- Reads inputs into variables, in order. -/
def readAll (line : Nat) : List String → Run Unit
  | [] => pure ()
  | name :: rest => do readInto name line; readAll line rest

/-- Writes a line. -/
def writeLine (text : String) : Run Unit :=
  modify fun m => { m with output := m.output ++ text ++ "\n" }

/-! ## Budgets -/

/-- Stops if the time is up. -/
def checkTime (line : Nat) : Run Unit := do
  match (← get).overdue? with
  | some given => fail (.timeout given.millis) line
  | none => pure ()

/-- The largest number of steps that is counted, the last one of 64 bits. -/
def maxCount : Nat := 18446744073709551615

/-- Counts one more step. The count stays where it is once it is the largest. -/
def countStep : Run Unit :=
  modify fun m => if m.steps < maxCount then { m with steps := m.steps + 1 } else m

/-- Charges one turn of a loop. -/
def chargeTurn (line : Nat) : Run Unit := do
  countStep
  let m ← get
  if m.limits.maxSteps < m.steps then fail (.infiniteLoop m.limits.maxSteps) line
  else checkTime line

/-- Charges one call of the routine of that name. -/
def chargeCall (name : String) (line : Nat) : Run Unit := do
  countStep
  let m ← get
  if m.limits.maxSteps < m.steps then
    fail (.unboundedRecursion name (.steps m.limits.maxSteps)) line
  else if m.limits.maxDepth ≤ m.frames.length then
    fail (.unboundedRecursion name (.depth m.limits.maxDepth)) line
  else checkTime line

/-- Runs a computation in a scope of its own, which is left also when the computation stops. -/
def inFrame {α : Type} (frame : Environment) (computation : Run α) : Run α := fun m =>
  match computation (m.push frame) with
  | .ok a m' => .ok a m'.pop
  | .error e m' => .error e m'.pop

end Run
end Pseudocode
