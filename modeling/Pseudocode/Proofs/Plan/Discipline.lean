import Pseudocode.Proofs.Plan.Steps

/-! # What holds at every moment, and of every error

A `Discipline` says what a machine is like while a plan is being carried out, and what may be said
of an error and of the machine that it leaves. Unlike an invariant it tells success from failure: a
call is only entered when it could be paid for, and whatever fails ends the computation.

* `Discipline.step`: one step of a computation under way.
* `Discipline.after`: any number of steps of a plan. -/

namespace Pseudocode
set_option autoImplicit false
open Run

/-- A computation that succeeded left one kind of machine, one that failed another. -/
def Ending.Sorted {α : Type} (good : α → Machine → Prop) (bad : RuntimeError → Machine → Prop) :
    Ending α → Prop
  | .ok a m => good a m
  | .error e m => bad e m

structure Discipline where
  running : Machine → Prop
  failed : RuntimeError → Machine → Prop
  primitive {α : Type} (p : Primitive α) {m : Machine} :
    running m → Ending.Sorted (fun _ => running) failed (p.run m)
  /-- A call that could be started goes on in its own scope. -/
  start (routine : Routine) (values : List Value) (line : Nat) {m : Machine} :
    running m → Ending.Sorted (fun frame m' => running (m'.push frame)) failed
      (routine.start values line m)
  pop {m : Machine} : running m → running m.pop
  pop_failed {e : RuntimeError} {m : Machine} : failed e m → failed e m.pop

namespace Discipline
variable (rules : Discipline)

/-- What has become of a computation is as the rules say. -/
def Obeys {α : Type} : Progress α → Prop
  | .running _ m => rules.running m
  | .finished ending => Ending.Sorted (fun _ => rules.running) rules.failed ending

variable {rules} {α : Type}

theorem planStep (plan : Plan α) {m : Machine} (h : rules.running m) :
    rules.Obeys (plan.step m) := by
  cases plan with
  | prim p => exact rules.primitive p h
  | call routine values line =>
    have hstart := rules.start routine values.1 line h
    cases hm : routine.start values.1 line m with
    | ok frame m' =>
      rw [hm] at hstart
      rw [Plan.step_call_ok hm]
      exact hstart
    | error e m' =>
      rw [hm] at hstart
      rw [Plan.step_call_error hm]
      exact hstart
  | pure | bind | whileLoop | repeatLoop | countLoop => exact h

theorem step (work : Running α) {m : Machine} (h : rules.running m) :
    rules.Obeys (work.step m) := by
  induction work with
  | plan source => exact planStep source h
  | bind first next ih =>
    unfold Running.step
    cases hm : first.step m with
    | finished ending =>
      rw [hm] at ih
      cases ending <;> exact ih
    | running first' m' =>
      rw [hm] at ih
      exact ih
  | active routine body ih =>
    unfold Running.step
    cases hm : body.step m with
    | finished ending =>
      rw [hm] at ih
      cases ending with
      | ok flow m' => exact rules.pop ih
      | error e m' => exact rules.pop_failed ih
    | running body' m' =>
      rw [hm] at ih
      exact ih

theorem advance (progress : Progress α) (h : rules.Obeys progress) :
    rules.Obeys progress.advance := by
  cases progress with
  | finished ending => exact h
  | running work m => exact step work h

theorem after (plan : Plan α) {m : Machine} (h : rules.running m) (k : Nat) :
    rules.Obeys (plan.after k m) := by
  have hafter (progress : Progress α) (hprogress : rules.Obeys progress) :
      rules.Obeys (progress.after k) := by
    induction k generalizing progress with
    | zero => exact hprogress
    | succ k ih => exact ih progress.advance (advance progress hprogress)
  exact hafter _ h

end Discipline
end Pseudocode
