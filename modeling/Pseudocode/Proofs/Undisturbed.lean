import Pseudocode.Proofs.Plan.Invariant

/-! # What expressions and calls leave alone

An expression has no variables of its own, and a call works in a scope that is closed again. So
whatever happens inside, and also when it fails there, the variables that were visible before are as
they were: all that is left behind is output, inputs that were read and steps that were counted.

For the induction the property is stated with the scopes that were opened in between: the statements
of a routine change the innermost one of these, and nothing below it. -/

namespace Pseudocode
set_option autoImplicit false
open Run

/-- What a machine has in common with an earlier one, since which the given scopes were opened and
not closed yet. -/
structure Machine.Undisturbed (before : Machine) (opened : List Environment) (after : Machine) :
    Prop where
  globals : after.globals = before.globals
  frames : after.frames = opened ++ before.frames
  routines : after.routines = before.routines
  limits : after.limits = before.limits
  clock : after.clock = before.clock
  supplied : after.supplied = before.supplied
  output : ∃ text, after.output = before.output ++ text
  inputs : after.inputs <:+ before.inputs
  steps : before.steps ≤ after.steps

namespace Machine.Undisturbed

theorem refl (m : Machine) : m.Undisturbed [] m where
  globals := rfl
  frames := rfl
  routines := rfl
  limits := rfl
  clock := rfl
  supplied := rfl
  output := ⟨"", by rw [String.append_empty]⟩
  inputs := List.suffix_refl _
  steps := Nat.le_refl _

variable {before m m' : Machine} {scope : Environment} {opened : List Environment}

theorem count (h : before.Undisturbed opened m) :
    before.Undisturbed opened { m with steps := m.steps + 1 } :=
  { h with steps := Nat.le_succ_of_le h.steps }

theorem push (h : before.Undisturbed opened m) :
    before.Undisturbed (scope :: opened) (m.push scope) :=
  { h with frames := congrArg (scope :: ·) h.frames }

theorem pop (h : before.Undisturbed (scope :: opened) m) : before.Undisturbed opened m.pop :=
  { h with frames := congrArg List.tail h.frames }

/-- Storing a value changes the innermost of the scopes that were opened. -/
theorem set (h : before.Undisturbed (scope :: opened) m) (name : String) (value : Value) :
    before.Undisturbed (scope.set name value :: opened) (m.set name value) := by
  have hset : m.set name value =
      { m with frames := scope.set name value :: (opened ++ before.frames) } := by
    unfold Machine.set
    rw [h.frames]
    rfl
  rw [hset]
  exact { h with frames := rfl }

/-- Inside a call, statements leave the same things alone; the scope of the call may change. -/
theorem change {place : Place} (hplace : Place.statement.covers place = true)
    (hchange : Change place m m') (h : before.Undisturbed (scope :: opened) m) :
    ∃ scope', before.Undisturbed (scope' :: opened) m' := by
  cases hchange with
  | count => exact ⟨scope, h.count⟩
  | @store _ name _ value => exact ⟨scope.set name value, h.set name value⟩
  | @take _ raw rest hinputs =>
    have hsuffix : rest <:+ m.inputs := hinputs ▸ List.suffix_cons raw rest
    exact ⟨scope, { h with inputs := hsuffix.trans h.inputs }⟩
  | write text =>
    obtain ⟨old, hold⟩ := h.output
    refine ⟨scope, { h with output := ⟨old ++ text, ?_⟩ }⟩
    rw [hold, String.append_assoc]
  | register => cases hplace
  | bind => cases hplace

end Machine.Undisturbed

/-- Relative to an earlier machine, one scope is open for each active call and the rest of the
machine is undisturbed. -/
def undisturbed (before : Machine) : Invariant .expression where
  holds calls m := ∃ opened, opened.length = calls.length ∧ before.Undisturbed opened m
  change := by
    intro calls place m m' hplace hchange ⟨opened, hlength, h⟩
    cases opened with
    | nil =>
      -- Outside of all calls there is only an expression, where nothing but steps is counted.
      obtain rfl := List.length_eq_zero_iff.1 hlength.symm
      cases hchange with
      | count => exact ⟨[], rfl, h.count⟩
      | store | take | write | register | bind => cases hplace
    | cons scope opened =>
      obtain ⟨routine, rest, rfl⟩ := List.exists_cons_of_length_eq_add_one hlength.symm
      obtain ⟨scope', h'⟩ := h.change hplace hchange
      exact ⟨scope' :: opened, hlength, h'⟩
  push := by
    intro routine values line frame calls m _ ⟨opened, hlength, h⟩
    exact ⟨frame :: opened, congrArg (· + 1) hlength, h.push⟩
  pop := by
    intro routine calls m ⟨opened, hlength, h⟩
    obtain ⟨scope, rest, rfl⟩ := List.exists_cons_of_length_eq_add_one hlength
    exact ⟨rest, Nat.succ.inj hlength, h.pop⟩

theorem Plan.denote_undisturbed {α : Type} (plan : Plan α) (hplan : plan.Within .expression)
    (depth : Nat) (m : Machine) :
    m.Undisturbed [] (Ending.machine (plan.denote (invoke depth) m)) := by
  have hkeeps : (undisturbed m).Keeps [] (plan.denote (invoke depth)) :=
    Invariant.denote (Invariant.invoke depth []) plan hplan
  obtain ⟨opened, hlength, h⟩ := hkeeps m ⟨[], rfl, .refl m⟩
  obtain rfl := List.length_eq_zero_iff.1 hlength
  exact h

/-- Expressions and calls, whether they succeed or fail, leave the main program, the scopes of all
active calls, the routines and the limits as they were. They only add to the output, take inputs
from the front and count steps. -/
theorem expressions_and_calls_undisturbed (m : Machine) :
    (∀ expr : Expr, m.Undisturbed [] (Ending.machine (expr.run m))) ∧
    (∀ (name : String) (arguments : List Expr) (line : Nat),
      m.Undisturbed [] (Ending.machine (runCall name arguments line m))) := by
  constructor
  · intro expr
    rw [expr.run_eq_denote]
    exact expr.plan.denote_undisturbed (expr.plan_within .expression) _ m
  · intro name arguments line
    rw [runCall_eq_denote]
    have hwithin := planAll_within .expression arguments
    exact Plan.denote_undisturbed _ (Plan.within_callNamed hwithin) _ m

/-- The time is up in the third step, inside of a procedure, which has written two lines and set a
variable of its own by then. -/
example :
    let body : List Statement :=
      [.assign "n" (.literal (.integer 1) 2) 2, .write [.literal (.string "a") 3] 3]
    let routine : Routine := ⟨.procedure, "p", [], none, [⟨["n"], .entier, 1⟩],
      [.whileLoop (.literal (.boolean true) 4) body 4], 1⟩
    let clock : Clock := fun steps => .ofMillis (20 * steps)
    let m := { Machine.initial [] ⟨100, 10, some (.ofMillis 50)⟩ clock with
      routines := [("p", routine)] }
    runCall "P" [] 9 m =
      .error ⟨.timeout 50, 4⟩ { m with output := "a\na\n", steps := 3 } := by rfl

end Pseudocode
