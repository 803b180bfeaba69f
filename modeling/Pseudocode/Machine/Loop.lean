import Pseudocode.Machine

/-! Sequences and loops of computations. Every turn of a loop pays a step, so a loop has no more turns
than there are steps left; that number is what the loops with a test count down. -/

namespace Pseudocode
set_option autoImplicit false

/-- How a statement ends: the next one follows, or the routine returns. -/
inductive Flow where
  | normal
  | returned (value : Option Value)
deriving DecidableEq

namespace Run

/-- Two computations in a row; the second one is left out when the first returns. -/
def andThen (first next : Run Flow) : Run Flow := do
  match ← first with
  | .normal => next
  | .returned value => return .returned value

/-- The truth value that a computation yields. -/
def test (condition : Run Value) (line : Nat) : Run Bool := do
  lift ((← condition).asBool line)

/-- `ET` or `OU` of two computations. The second one only runs when the first does not decide. -/
def logic (op : BinOp) (left right : Run Value) (line : Nat) : Run Value := do
  let first ← test left line
  if Value.decides op first then return .boolean first
  else return .boolean (← test right line)

/-! ## Loops with a test -/

/-- A loop with its test before the body, over at most the given number of turns. -/
def whileTurns (condition : Run Bool) (body : Run Flow) (line : Nat) : Nat → Run Flow
  | 0 => do fail (.infiniteLoop (← get).limits.maxSteps) line
  | turns + 1 => do
    if ← condition then
      andThen body do chargeTurn line; whileTurns condition body line turns
    else return .normal

/-- A loop with its test before the body. -/
def whileLoop (condition : Run Bool) (body : Run Flow) (line : Nat) : Run Flow := do
  whileTurns condition body line ((← get).stepsLeft + 1)

/-- A loop with its test after the body, over at most the given number of turns. -/
def repeatTurns (body : Run Flow) (condition : Run Bool) (line : Nat) : Nat → Run Flow
  | 0 => do fail (.infiniteLoop (← get).limits.maxSteps) line
  | turns + 1 =>
    andThen body do
      if ← condition then return .normal
      else chargeTurn line; repeatTurns body condition line turns

/-- A loop with its test after the body. -/
def repeatLoop (body : Run Flow) (condition : Run Bool) (line : Nat) : Run Flow := do
  repeatTurns body condition line ((← get).stepsLeft + 1)

/-! ## Loops over integers -/

/-- Whether an integer is not past the last one, in the direction of the step. -/
abbrev InRange (value last step : Int) : Prop :=
  0 < step ∧ value ≤ last ∨ step < 0 ∧ last ≤ value

/-- The turns of a loop over integers, from `value` on. Whatever the body does to the variable, the
next turn starts with the next integer. Where that is no `ENTIER`, it would be past the last one. -/
@[semireducible]
def forTurns (name : String) (last step : Entier) (body : Run Flow) (line : Nat) (value : Entier) :
    Run Flow :=
  if _ : InRange value.toInt last.toInt step.toInt then
    andThen (do assign name (.integer value) line; body) do
      chargeTurn line
      match _ : value.add? step with
      | some next => forTurns name last step body line next
      | none => return .normal
  else return .normal
termination_by
  if 0 < step.toInt then (last.toInt + 1 - value.toInt).toNat
  else (value.toInt + 1 - last.toInt).toNat
decreasing_by
  have hsum : next.toInt = value.toInt + step.toInt := Entier.toInt_of_ofInt? ‹_›
  split <;> omega

/-- Checks that a name is that of a variable which a loop can count with. -/
def checkCounter (name : String) (line : Nat) : Run Unit := do
  let binding ← resolveVariable name line
  if binding.ty = .entier then pure ()
  else fail (.typeMismatch (.loopVariable name binding.ty)) line

/-- An `ENTIER` that a computation yields. -/
def bound (computation : Run Value) (line : Nat) : Run Entier := do
  lift ((← computation).asEntier line)

/-- A loop over integers. Its bounds are computed once, before the first turn. -/
def forLoop (name : String) (first last step : Run Value) (body : Run Flow) (line : Nat) :
    Run Flow := do
  checkCounter name line
  let first ← bound first line
  let last ← bound last line
  let step ← bound step line
  if step.toInt = 0 then fail .invalidLoopStep line
  else forTurns name last step body line first

end Run
end Pseudocode
