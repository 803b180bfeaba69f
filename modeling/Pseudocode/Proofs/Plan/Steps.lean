import Pseudocode.Proofs.Plan
import Pseudocode.Proofs.Run

/-! # Plans carried out step by step

A plan is carried out in steps, each of which does one primitive, opens a loop up by one turn or
enters a routine. Nothing here counts anything down: whether the steps come to an end is a property
of the plan and of the machine.

* `Running`: a plan that is being carried out, with the calls that are active in it.
* `Progress.after`: what has become of a computation after a number of steps.
* `Ends`: the computation comes to an end, with the given result. -/

namespace Pseudocode
set_option autoImplicit false
open Run

/-! ## Running computations -/

/-- The start of a call: it is paid for, and its scope is made. -/
def Routine.start (routine : Routine) (values : List Value) (line : Nat) : Run Environment := do
  chargeCall routine.name line
  lift (routine.frame values line)

theorem invoke_succ (depth : Nat) (routine : Routine) (values : List Value) (line : Nat) :
    invoke (depth + 1) routine values line = (do
      let frame ← routine.start values line
      let flow ← inFrame frame (execBlock (invoke depth) routine.body)
      lift (routine.result flow line)) := by
  simp only [invoke, Routine.start, bind_assoc]

/-- A computation that is under way. -/
inductive Running : Type → Type 1 where
  | plan {α : Type} (source : Plan α) : Running α
  | bind {α β : Type} (first : Running β) (next : β → Plan α) : Running α
  /-- The body of a routine, in the scope of its call. -/
  | active (routine : Routine) (body : Running Flow) : Running Flow

/-- What has become of a computation. -/
inductive Progress (α : Type) : Type 1 where
  | finished (ending : Ending α)
  | running (work : Running α) (m : Machine)

def Plan.step {α : Type} : Plan α → Machine → Progress α
  | .pure a, m => .finished (.ok a m)
  | .prim primitive, m => .finished (primitive.run m)
  | .bind first next, m => .running (.bind (.plan first) next) m
  | .whileLoop condition body line, m => .running (.plan (whileTurn condition body line)) m
  | .repeatLoop body condition line, m => .running (.plan (repeatTurn body condition line)) m
  | .countLoop name value last step nonzero body line, m =>
    .running (.plan (countTurn name value last step nonzero body line)) m
  | .call routine values line, m =>
    match routine.start values.1 line m with
    | .ok frame m' =>
      .running (.bind (.active routine (.plan (planBlock routine.body)))
        fun flow => give (routine.result flow line)) (m'.push frame)
    | .error e m' => .finished (.error e m')

theorem Plan.step_call_ok {routine : Routine} {values : Values routine.params.length} {line : Nat}
    {m m' : Machine} {frame : Environment} (h : routine.start values.1 line m = .ok frame m') :
    (Plan.call routine values line).step m =
      .running (.bind (.active routine (.plan (planBlock routine.body)))
        fun flow => give (routine.result flow line)) (m'.push frame) := by
  rw [Plan.step, h]

theorem Plan.step_call_error {routine : Routine} {values : Values routine.params.length}
    {line : Nat} {m m' : Machine} {e : RuntimeError}
    (h : routine.start values.1 line m = .error e m') :
    (Plan.call routine values line).step m = .finished (.error e m') := by
  rw [Plan.step, h]

namespace Running

def step {α : Type} : Running α → Machine → Progress α
  | .plan source, m => source.step m
  | .bind first next, m =>
    match first.step m with
    | .finished (.ok b m') => .running (.plan (next b)) m'
    | .finished (.error e m') => .finished (.error e m')
    | .running first' m' => .running (.bind first' next) m'
  | .active routine body, m =>
    match body.step m with
    | .finished ending => .finished (Ending.pop ending)
    | .running body' m' => .running (.active routine body') m'

/-- The routines whose calls are active, the innermost first. -/
def calls {α : Type} : Running α → List Routine
  | .plan _ => []
  | .bind first _ => first.calls
  | .active routine body => body.calls ++ [routine]

end Running

namespace Progress

/-- One more step, if there is one. -/
def advance {α : Type} : Progress α → Progress α
  | .finished ending => .finished ending
  | .running work m => work.step m

/-- What has become of a computation after so many steps. -/
def after {α : Type} (progress : Progress α) : Nat → Progress α
  | 0 => progress
  | k + 1 => progress.advance.after k

def machine {α : Type} : Progress α → Machine
  | .finished ending => Ending.machine ending
  | .running _ m => m

def calls {α : Type} : Progress α → List Routine
  | .finished _ => []
  | .running work _ => work.calls

theorem after_finished {α : Type} (ending : Ending α) (k : Nat) :
    (Progress.finished ending).after k = .finished ending := by
  induction k with
  | zero => rfl
  | succ k ih => exact ih

theorem after_succ {α : Type} (progress : Progress α) (k : Nat) :
    progress.after (k + 1) = (progress.after k).advance := by
  induction k generalizing progress with
  | zero => rfl
  | succ k ih => exact ih progress.advance

theorem after_add {α : Type} (progress : Progress α) (k j : Nat) :
    progress.after (k + j) = (progress.after k).after j := by
  induction j with
  | zero => rfl
  | succ j ih => rw [← Nat.add_assoc, after_succ, after_succ, ih]

end Progress

/-- What has become of a plan after so many steps from the given machine. -/
def Plan.after {α : Type} (plan : Plan α) (k : Nat) (m : Machine) : Progress α :=
  (Progress.running (.plan plan) m).after k

/-! ## The end of a computation -/

/-- A computation comes to an end with the given result. -/
inductive Ends {α : Type} : Running α → Machine → Ending α → Prop where
  | last {work : Running α} {m : Machine} {ending : Ending α} :
      work.step m = .finished ending → Ends work m ending
  | more {work work' : Running α} {m m' : Machine} {ending : Ending α} :
      work.step m = .running work' m' → Ends work' m' ending → Ends work m ending

namespace Ends

/-- From some number of steps on, a computation that comes to an end has done so. -/
theorem after {α : Type} {work : Running α} {m : Machine} {ending : Ending α}
    (h : Ends work m ending) :
    ∃ n, ∀ k ≥ n, (Progress.running work m).after k = .finished ending := by
  induction h with
  | @last work m ending hstep =>
    refine ⟨1, fun k hk => ?_⟩
    obtain ⟨j, rfl⟩ := Nat.exists_eq_add_of_le' hk
    have hadvance : (Progress.running work m).advance = .finished ending := hstep
    rw [Progress.after, hadvance, Progress.after_finished]
  | @more work work' m m' ending hstep _ ih =>
    obtain ⟨n, hn⟩ := ih
    refine ⟨n + 1, fun k hk => ?_⟩
    obtain ⟨j, rfl⟩ := Nat.exists_eq_add_of_le' hk
    have hadvance : (Progress.running work m).advance = .running work' m' := hstep
    rw [← Nat.add_assoc, Progress.after, hadvance]
    exact hn (j + n) (Nat.le_add_left n j)

theorem bind_ok {α β : Type} {first : Running β} {next : β → Plan α} {m m' : Machine} {b : β}
    {ending : Ending α} (hfirst : Ends first m (.ok b m'))
    (hnext : Ends (.plan (next b)) m' ending) :
    Ends (.bind first next) m ending := by
  generalize hmiddle : (EStateM.Result.ok b m' : Ending β) = middle at hfirst
  induction hfirst with
  | @last first m _ hstep =>
    subst hmiddle
    refine .more ?_ hnext
    rw [Running.step, hstep]
  | @more first first' m m' _ hstep _ ih =>
    refine .more ?_ (ih hmiddle)
    rw [Running.step, hstep]

theorem bind_error {α β : Type} {first : Running β} {next : β → Plan α} {m m' : Machine}
    {e : RuntimeError} (hfirst : Ends first m (.error e m')) :
    Ends (.bind first next) m (.error e m') := by
  generalize hmiddle : (EStateM.Result.error e m' : Ending β) = middle at hfirst
  induction hfirst with
  | @last first m _ hstep =>
    subst hmiddle
    refine .last ?_
    rw [Running.step, hstep]
  | @more first first' m m' _ hstep _ ih =>
    refine .more ?_ (ih hmiddle)
    rw [Running.step, hstep]

theorem active {routine : Routine} {body : Running Flow} {m : Machine} {ending : Ending Flow}
    (h : Ends body m ending) : Ends (.active routine body) m (Ending.pop ending) := by
  induction h with
  | last hstep => exact .last (by rw [Running.step, hstep])
  | more hstep _ ih => exact .more (by rw [Running.step, hstep]) ih

/-- A sequence ends when its first part does and then its second part, from where the first one left
the machine. The first part may already be under way, on another machine than it started from. -/
theorem sequence {α β : Type} {first : Running β} {next : β → Plan α} {m m₀ : Machine} (c : Run β)
    (f : β → Run α) (hfirst : Ends first m (c m₀))
    (hnext : ∀ b m', c m₀ = .ok b m' → Ends (.plan (next b)) m' (f b m')) :
    Ends (.bind first next) m ((c >>= f) m₀) := by
  cases hc : c m₀ with
  | ok b m' =>
    rw [hc] at hfirst
    rw [Run.bind_ok hc]
    exact bind_ok hfirst (hnext b m' hc)
  | error e m' =>
    rw [hc] at hfirst
    rw [Run.bind_error hc]
    exact bind_error hfirst

end Ends
end Pseudocode
