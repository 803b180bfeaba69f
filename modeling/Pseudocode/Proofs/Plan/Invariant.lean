import Pseudocode.Proofs.Change
import Pseudocode.Proofs.Plan.Steps

/-! # Invariants of plans

An `Invariant` is a property of a machine and of the calls that are active on it, which the changes
of the machine keep and which survives the start and the end of a call. It is then kept

* by whole computations, whether they succeed or fail: `Invariant.denote`, `Invariant.invoke`;
* by every single step of a plan, hence at every moment of it: `Invariant.after`.

What may change depends on the place: at the top of an expression only a step may be counted, while
the statements of an active call may change its scope. -/

namespace Pseudocode
set_option autoImplicit false
open Run

/-! ## The places of a plan -/

theorem Place.covers_expression (place : Place) : place.covers .expression = true := by
  cases place <;> rfl

namespace Plan

/-- Whether the plan only has primitives that may stand at the given place. Every turn of a loop is
charged for, which a statement does. What a call does is no part of the plan. -/
def Within {α : Type} (place : Place) : Plan α → Prop
  | .pure _ => True
  | .prim primitive => place.covers primitive.place = true
  | .bind first next => first.Within place ∧ ∀ b, (next b).Within place
  | .whileLoop condition body _ | .repeatLoop body condition _ =>
    place.covers .statement = true ∧ condition.Within place ∧ body.Within place
  | .countLoop _ _ _ _ _ body _ => place.covers .statement = true ∧ body.Within place
  | .call _ _ _ => True

section Within
variable {place : Place}

theorem within_give {α : Type} (result : Except RuntimeError α) : (give result).Within place :=
  place.covers_expression

theorem within_dite {α : Type} {c : Prop} [Decidable c] {first : c → Plan α}
    {other : ¬c → Plan α} (hfirst : ∀ h, (first h).Within place)
    (hother : ∀ h, (other h).Within place) :
    (if h : c then first h else other h).Within place := by
  split
  · exact hfirst _
  · exact hother _

theorem within_ite {α : Type} {c : Prop} [Decidable c] {first other : Plan α}
    (hfirst : first.Within place) (hother : other.Within place) :
    (if c then first else other).Within place :=
  within_dite (fun _ => hfirst) (fun _ => hother)

theorem within_andThen {first next : Plan Flow} (hfirst : first.Within place)
    (hnext : next.Within place) : (andThen first next).Within place := by
  refine ⟨hfirst, fun flow => ?_⟩
  cases flow with
  | normal => exact hnext
  | returned value => trivial

theorem within_test {condition : Plan Value} (h : condition.Within place) (line : Nat) :
    (test condition line).Within place :=
  ⟨h, fun _ => within_give _⟩

theorem within_logic {op : BinOp} {left right : Plan Value} {line : Nat}
    (hleft : left.Within place) (hright : right.Within place) :
    (logic op left right line).Within place :=
  ⟨within_test hleft line, fun _ =>
    within_ite trivial ⟨within_test hright line, fun _ => trivial⟩⟩

theorem within_callNamed {name : String} {count line : Nat} {arguments : Plan (Values count)}
    (h : arguments.Within place) : (callNamed name count arguments line).Within place := by
  unfold callNamed
  cases Builtin.find? name with
  | some builtin =>
    exact ⟨h, fun _ => within_ite ⟨within_give _, fun _ => trivial⟩ (within_give _)⟩
  | none =>
    refine ⟨place.covers_expression, fun found => ?_⟩
    cases found with
    | none => exact within_give _
    | some routine =>
      exact within_dite (fun _ => ⟨h, fun _ => trivial⟩) (fun _ => within_give _)

theorem within_callForValue {name : String} {count line : Nat} {arguments : Plan (Values count)}
    (h : arguments.Within place) : (callForValue name count arguments line).Within place := by
  have hvalue : (callNamed name count arguments line >>= required name line).Within place := by
    refine ⟨within_callNamed h, fun result => ?_⟩
    cases result with
    | none => exact within_give _
    | some value => trivial
  refine ⟨place.covers_expression, fun found => ?_⟩
  rcases found with _ | routine
  · exact hvalue
  · cases hkind : routine.kind <;> simp only [Option.map_some, hkind]
    · exact within_give _
    · exact hvalue

theorem within_turns (hplace : place.covers .statement = true) {condition : Plan Bool}
    {body : Plan Flow} {line : Nat} (hcondition : condition.Within place)
    (hbody : body.Within place) :
    (whileTurn condition body line).Within place ∧ (repeatTurn body condition line).Within place :=
  ⟨⟨hcondition, fun _ => within_ite
      (within_andThen hbody ⟨hplace, fun _ => ⟨hplace, hcondition, hbody⟩⟩) trivial⟩,
    within_andThen hbody ⟨hcondition, fun _ => within_ite trivial
      ⟨hplace, fun _ => ⟨hplace, hcondition, hbody⟩⟩⟩⟩

theorem within_countTurn (hplace : place.covers .statement = true) {name : String}
    {value last step : Entier} {nonzero : step.toInt ≠ 0} {body : Plan Flow} {line : Nat}
    (hbody : body.Within place) :
    (countTurn name value last step nonzero body line).Within place := by
  refine within_ite (within_andThen ⟨hplace, fun _ => hbody⟩ ⟨hplace, fun _ => ?_⟩) trivial
  cases value.add? step with
  | none => trivial
  | some next => exact ⟨hplace, hbody⟩

theorem within_forLoop (hplace : place.covers .statement = true) {name : String}
    {first last step : Plan Value} {body : Plan Flow} {line : Nat} (hfirst : first.Within place)
    (hlast : last.Within place) (hstep : step.Within place) (hbody : body.Within place) :
    (forLoop name first last step body line).Within place :=
  ⟨hplace, fun _ => ⟨hfirst, fun _ => ⟨within_give _, fun _ => ⟨hlast, fun _ => ⟨within_give _,
    fun _ => ⟨hstep, fun _ => ⟨within_give _, fun _ =>
      within_dite (fun _ => within_give _) (fun _ => ⟨hplace, hbody⟩)⟩⟩⟩⟩⟩⟩⟩

theorem within_readAll (hplace : place.covers .statement = true) (line : Nat)
    (names : List String) : (readAll line names).Within place := by
  induction names with
  | nil => trivial
  | cons name rest ih => exact ⟨hplace, fun _ => ih⟩

end Within
end Plan

mutual

theorem Expr.plan_within (place : Place) : ∀ expr : Expr, expr.plan.Within place
  | .literal _ _ => by rw [Expr.plan]; trivial
  | .var _ _ => by rw [Expr.plan]; exact place.covers_expression
  | .unary _ operand _ => by
    rw [Expr.plan]
    exact ⟨operand.plan_within place, fun _ => Plan.within_give _⟩
  | .binary left op right _ => by
    rw [Expr.plan]
    exact Plan.within_ite (Plan.within_logic (left.plan_within place) (right.plan_within place))
      ⟨left.plan_within place, fun _ => ⟨right.plan_within place, fun _ => Plan.within_give _⟩⟩
  | .call _ arguments _ => by
    rw [Expr.plan]
    exact Plan.within_callForValue (planAll_within place arguments)

theorem planAll_within (place : Place) : ∀ exprs : List Expr, (planAll exprs).Within place
  | [] => by rw [planAll]; trivial
  | first :: rest => by
    rw [planAll]
    exact ⟨first.plan_within place, fun _ => ⟨planAll_within place rest, fun _ => trivial⟩⟩

end

theorem planStep_within (place : Place) (step : Option Expr) : (planStep step).Within place := by
  cases step with
  | none => trivial
  | some step => exact step.plan_within place

mutual

theorem Statement.plan_within {place : Place} (hplace : place.covers .statement = true) :
    ∀ statement : Statement, statement.plan.Within place
  | .assign _ value _ => by
    rw [Statement.plan]
    exact ⟨value.plan_within place, fun _ => ⟨hplace, fun _ => trivial⟩⟩
  | .read targets line => by
    rw [Statement.plan]
    exact ⟨Plan.within_readAll hplace line targets, fun _ => trivial⟩
  | .write values _ => by
    rw [Statement.plan]
    exact ⟨planAll_within place values, fun _ => ⟨hplace, fun _ => trivial⟩⟩
  | .branch condition thenBlock elseBlock line => by
    rw [Statement.plan]
    exact ⟨Plan.within_test (condition.plan_within place) line, fun _ =>
      Plan.within_ite (planBlock_within hplace thenBlock) (planElse_within hplace elseBlock)⟩
  | .forLoop _ first last step body _ => by
    rw [Statement.plan]
    exact Plan.within_forLoop hplace (first.plan_within place) (last.plan_within place)
      (planStep_within place step) (planBlock_within hplace body)
  | .whileLoop condition body line => by
    rw [Statement.plan]
    exact ⟨hplace, Plan.within_test (condition.plan_within place) line,
      planBlock_within hplace body⟩
  | .repeatLoop body condition line => by
    rw [Statement.plan]
    exact ⟨hplace, Plan.within_test (condition.plan_within place) line,
      planBlock_within hplace body⟩
  | .call _ arguments _ => by
    rw [Statement.plan]
    exact ⟨Plan.within_callNamed (planAll_within place arguments), fun _ => trivial⟩
  | .ret none _ => by rw [Statement.plan]; trivial
  | .ret (some value) _ => by
    rw [Statement.plan]
    exact ⟨value.plan_within place, fun _ => trivial⟩

theorem planBlock_within {place : Place} (hplace : place.covers .statement = true) :
    ∀ block : List Statement, (planBlock block).Within place
  | [] => by rw [planBlock]; trivial
  | first :: rest => by
    rw [planBlock]
    exact Plan.within_andThen (first.plan_within hplace) (planBlock_within hplace rest)

theorem planElse_within {place : Place} (hplace : place.covers .statement = true) :
    ∀ block : Option (List Statement), (planElse block).Within place
  | none => by rw [planElse]; trivial
  | some block => by rw [planElse]; exact planBlock_within hplace block

end

namespace Program

theorem planRoutines_within (routines : List Routine) :
    (planRoutines routines).Within .program := by
  induction routines with
  | nil => trivial
  | cons routine rest ih => exact ⟨rfl, fun _ => ih⟩

theorem planConstants_within (constants : List ConstDecl) :
    (planConstants constants).Within .program := by
  induction constants with
  | nil => trivial
  | cons constant rest ih =>
    exact ⟨constant.value.plan_within .program, fun _ => ⟨rfl, fun _ => ih⟩⟩

theorem planVariables_within (names : List (String × Ty × Nat)) :
    (planVariables names).Within .program := by
  induction names with
  | nil => trivial
  | cons name rest ih => exact ⟨rfl, fun _ => ih⟩

theorem plan_within (program : Program) : program.plan.Within .program :=
  ⟨planRoutines_within _, fun _ => ⟨planConstants_within _, fun _ =>
    ⟨planVariables_within _, fun _ => ⟨planBlock_within rfl _, fun _ => trivial⟩⟩⟩⟩

end Program

/-! ## Invariants -/

/-- The place of a computation inside the given active calls, in a plan for the place `top`. -/
def placeInside (top : Place) : List Routine → Place
  | [] => top
  | _ :: _ => .statement

/-- A property of a machine and of the calls that are active on it, the innermost first, which every
plan for the place `top` keeps. -/
structure Invariant (top : Place) where
  holds : List Routine → Machine → Prop
  change {calls : List Routine} {place : Place} {m m' : Machine} :
    (placeInside top calls).covers place = true → Change place m m' → holds calls m → holds calls m'
  push {routine : Routine} {values : Values routine.params.length} {line : Nat}
      {frame : Environment} {calls : List Routine} {m : Machine} :
    routine.frame values.1 line = .ok frame → holds calls m →
      holds (routine :: calls) (m.push frame)
  pop {routine : Routine} {calls : List Routine} {m : Machine} :
    holds (routine :: calls) m → holds calls m.pop

namespace Invariant
variable {top : Place} (inv : Invariant top)

theorem changes {calls : List Routine} {place : Place} {m m' : Machine}
    (hplace : (placeInside top calls).covers place = true) (hchanges : Changes place m m')
    (h : inv.holds calls m) : inv.holds calls m' := by
  induction hchanges with
  | refl => exact h
  | tail _ hchange ih => exact inv.change hplace hchange ih

theorem primitive {α : Type} {p : Primitive α} {calls : List Routine} {m : Machine}
    (hplace : (placeInside top calls).covers p.place = true) (h : inv.holds calls m) :
    inv.holds calls (Ending.machine (p.run m)) :=
  inv.changes hplace (p.run_changes m) h

/-! ## Whole computations -/

/-- A computation keeps the invariant inside the given calls. -/
def Keeps {α : Type} (calls : List Routine) (c : Run α) : Prop :=
  ∀ m, inv.holds calls m → inv.holds calls (Ending.machine (c m))

variable {inv} {calls : List Routine}

theorem Keeps.bind {α β : Type} {c : Run β} {f : β → Run α} (hc : inv.Keeps calls c)
    (hf : ∀ b, inv.Keeps calls (f b)) : inv.Keeps calls (c >>= f) := by
  intro m h
  have hfirst := hc m h
  cases hm : c m with
  | ok b m' =>
    rw [hm] at hfirst
    rw [bind_ok hm]
    exact hf b m' hfirst
  | error e m' =>
    rw [hm] at hfirst
    rw [bind_error hm]
    exact hfirst

theorem Keeps.pure {α : Type} (a : α) : inv.Keeps calls (pure a : Run α) := fun _ h => h

theorem Keeps.lift {α : Type} (result : Except RuntimeError α) :
    inv.Keeps calls (lift result) := by
  intro m h
  cases result <;> exact h

theorem Keeps.andThen {first next : Run Flow} (hfirst : inv.Keeps calls first)
    (hnext : inv.Keeps calls next) : inv.Keeps calls (Run.andThen first next) := by
  refine hfirst.bind fun flow => ?_
  cases flow with
  | normal => exact hnext
  | returned value => exact Keeps.pure _

theorem Keeps.chargeTurn (hplace : (placeInside top calls).covers .statement = true) (line : Nat) :
    inv.Keeps calls (Run.chargeTurn line) :=
  fun m h => inv.changes hplace (chargeTurn_changes .statement line m) h

theorem Keeps.whileTurns (hplace : (placeInside top calls).covers .statement = true)
    {condition : Run Bool} {body : Run Flow} (line : Nat) (hcondition : inv.Keeps calls condition)
    (hbody : inv.Keeps calls body) (turns : Nat) :
    inv.Keeps calls (Run.whileTurns condition body line turns) := by
  induction turns with
  | zero => exact fun _ h => h
  | succ turns ih =>
    refine hcondition.bind fun holds => ?_
    split
    · exact hbody.andThen ((Keeps.chargeTurn hplace line).bind fun _ => ih)
    · exact Keeps.pure _

theorem Keeps.repeatTurns (hplace : (placeInside top calls).covers .statement = true)
    {condition : Run Bool} {body : Run Flow} (line : Nat) (hcondition : inv.Keeps calls condition)
    (hbody : inv.Keeps calls body) (turns : Nat) :
    inv.Keeps calls (Run.repeatTurns body condition line turns) := by
  induction turns with
  | zero => exact fun _ h => h
  | succ turns ih =>
    refine hbody.andThen (hcondition.bind fun holds => ?_)
    split
    · exact Keeps.pure _
    · exact (Keeps.chargeTurn hplace line).bind fun _ => ih

theorem Keeps.forTurns (hplace : (placeInside top calls).covers .statement = true)
    (name : String) (last step : Entier) {body : Run Flow} (line : Nat)
    (hbody : inv.Keeps calls body) (value : Entier) :
    inv.Keeps calls (Run.forTurns name last step body line value) := by
  induction value using Run.forTurns.induct last step with
  | case1 value hrange ih =>
    have hassign : inv.Keeps calls (Run.assign name (.integer value) line) :=
      fun m h => inv.changes hplace (assign_changes name _ line m) h
    rw [Run.forTurns, dif_pos hrange]
    refine (hassign.bind fun _ => hbody).andThen ((Keeps.chargeTurn hplace line).bind fun _ => ?_)
    split
    · exact ih _ ‹_›
    · exact Keeps.pure _
  | case2 value hrange =>
    rw [Run.forTurns, dif_neg hrange]
    exact Keeps.pure _

theorem Keeps.start (routine : Routine) (values : List Value) (line : Nat) :
    inv.Keeps calls (routine.start values line) := by
  have hcharge : inv.Keeps calls (Run.chargeCall routine.name line) := fun m h =>
    inv.changes (Place.covers_expression _) (chargeCall_changes .expression _ line m) h
  exact hcharge.bind fun _ => Keeps.lift _

/-- What plans keep, given that calls do. The induction follows the plan. -/
theorem denote {invoke : Invoke}
    (hinvoke : ∀ (routine : Routine) (values : Values routine.params.length) (line : Nat),
      inv.Keeps calls (invoke routine values.1 line))
    {α : Type} (plan : Plan α) (hplan : plan.Within (placeInside top calls)) :
    inv.Keeps calls (plan.denote invoke) := by
  induction plan with
  | pure a => exact Keeps.pure a
  | prim p => exact fun m h => inv.primitive hplan h
  | bind first next ihfirst ihnext =>
    exact (ihfirst hplan.1).bind fun b => ihnext b (hplan.2 b)
  | whileLoop condition body line ihcondition ihbody =>
    exact fun m h => Keeps.whileTurns hplan.1 line (ihcondition hplan.2.1) (ihbody hplan.2.2)
      (m.stepsLeft + 1) m h
  | repeatLoop body condition line ihbody ihcondition =>
    exact fun m h => Keeps.repeatTurns hplan.1 line (ihcondition hplan.2.1) (ihbody hplan.2.2)
      (m.stepsLeft + 1) m h
  | countLoop name value last step nonzero body line ihbody =>
    exact Keeps.forTurns hplan.1 name last step line (ihbody hplan.2) value
  | call routine values line => exact hinvoke routine values line

/-- A scope made by the start of a call is one of its routine. -/
theorem start_frame {routine : Routine} {values : List Value} {line : Nat} {m m' : Machine}
    {frame : Environment} (h : routine.start values line m = .ok frame m') :
    routine.frame values line = .ok frame := by
  obtain ⟨_, m₁, -, hlift⟩ := bind_eq_ok h
  exact lift_eq_ok hlift

/-- What is kept inside a call is kept by the call, which closes the scope that it opens. -/
theorem Keeps.inFrame {routine : Routine} {values : Values routine.params.length} {line : Nat}
    {frame : Environment} (hframe : routine.frame values.1 line = .ok frame) {α : Type} {c : Run α}
    (hc : inv.Keeps (routine :: calls) c) : inv.Keeps calls (inFrame frame c) := by
  intro m h
  rw [inFrame_apply, Ending.machine_pop]
  exact inv.pop (hc _ (inv.push hframe h))

/-- Calls keep every invariant, at whatever depth. The body of a routine consists of statements, and
its scope is gone when the call ends, also when it fails. -/
theorem invoke (depth : Nat) (calls : List Routine) (routine : Routine)
    (values : Values routine.params.length) (line : Nat) :
    inv.Keeps calls (Pseudocode.invoke depth routine values.1 line) := by
  induction depth generalizing calls routine values line with
  | zero =>
    have hcharge : inv.Keeps calls (Run.chargeCall routine.name line) := fun m h =>
      inv.changes (Place.covers_expression _) (chargeCall_changes .expression _ line m) h
    exact hcharge.bind fun _ _ h => h
  | succ depth ih =>
    intro m h
    have hstart : inv.holds calls (Ending.machine (routine.start values.1 line m)) :=
      Keeps.start routine values.1 line m h
    rw [invoke_succ]
    cases hm : routine.start values.1 line m with
    | error e m' =>
      rw [hm] at hstart
      rw [bind_error hm]
      exact hstart
    | ok frame m' =>
      rw [hm] at hstart
      rw [bind_ok hm]
      have hbody : inv.Keeps (routine :: calls) (execBlock (Pseudocode.invoke depth) routine.body) := by
        rw [execBlock_eq_denote]
        exact denote (ih (routine :: calls)) _ (planBlock_within rfl routine.body)
      have hframe := Keeps.inFrame (start_frame hm) hbody
      exact hframe.bind (fun flow => Keeps.lift (routine.result flow line)) m' hstart

end Invariant

/-! ## Single steps -/

/-- Whether a computation under way, inside the given calls, only has what its places allow. -/
def Running.Within (top : Place) {α : Type} (calls : List Routine) : Running α → Prop
  | .plan source => source.Within (placeInside top calls)
  | .bind first next => first.Within top calls ∧ ∀ b, (next b).Within (placeInside top calls)
  | .active routine body => body.Within top (routine :: calls)

namespace Invariant
variable {top : Place} (inv : Invariant top)

/-- A computation that has come so far inside the given calls only has what its places allow, and
the invariant holds of all the calls that are active. -/
def Covers {α : Type} (calls : List Routine) : Progress α → Prop
  | .finished ending => inv.holds calls (Ending.machine ending)
  | .running work m => work.Within top calls ∧ inv.holds (work.calls ++ calls) m

variable {inv}

theorem covers_planStep {α : Type} {calls : List Routine} (plan : Plan α) {m : Machine}
    (hplan : plan.Within (placeInside top calls)) (h : inv.holds calls m) :
    inv.Covers calls (plan.step m) := by
  cases plan with
  | pure a => exact h
  | prim p => exact inv.primitive hplan h
  | bind first next => exact ⟨hplan, h⟩
  | whileLoop condition body line =>
    exact ⟨(Plan.within_turns hplan.1 hplan.2.1 hplan.2.2).1, h⟩
  | repeatLoop body condition line =>
    exact ⟨(Plan.within_turns hplan.1 hplan.2.1 hplan.2.2).2, h⟩
  | countLoop name value last step nonzero body line =>
    exact ⟨Plan.within_countTurn hplan.1 hplan.2, h⟩
  | call routine values line =>
    have hstart : inv.holds calls (Ending.machine (routine.start values.1 line m)) :=
      Keeps.start routine values.1 line m h
    cases hm : routine.start values.1 line m with
    | error e m' =>
      rw [hm] at hstart
      rw [Plan.step_call_error hm]
      exact hstart
    | ok frame m' =>
      rw [hm] at hstart
      rw [Plan.step_call_ok hm]
      exact ⟨⟨planBlock_within rfl routine.body, fun _ => Plan.within_give _⟩,
        inv.push (start_frame hm) hstart⟩

/-- One step. The induction follows the calls that are active, from the outermost one in. -/
theorem covers_step {α : Type} (work : Running α) {calls : List Routine} {m : Machine}
    (hwork : work.Within top calls) (h : inv.holds (work.calls ++ calls) m) :
    inv.Covers calls (work.step m) := by
  induction work generalizing calls with
  | plan source => exact covers_planStep source hwork h
  | bind first next ih =>
    have hfirst := ih hwork.1 h
    unfold Running.step
    cases hm : first.step m with
    | finished ending =>
      rw [hm] at hfirst
      cases ending with
      | ok b m' => exact ⟨hwork.2 b, hfirst⟩
      | error e m' => exact hfirst
    | running first' m' =>
      rw [hm] at hfirst
      exact ⟨⟨hfirst.1, hwork.2⟩, hfirst.2⟩
  | active routine body ih =>
    rw [Running.calls, List.append_assoc] at h
    have hbody := ih hwork h
    unfold Running.step
    cases hm : body.step m with
    | finished ending =>
      rw [hm] at hbody
      change inv.holds calls (Ending.machine (Ending.pop ending))
      rw [Ending.machine_pop]
      exact inv.pop hbody
    | running body' m' =>
      rw [hm] at hbody
      refine ⟨hbody.1, ?_⟩
      rw [Running.calls, List.append_assoc]
      exact hbody.2

theorem covers_after {α : Type} {calls : List Routine} (progress : Progress α)
    (h : inv.Covers calls progress) (k : Nat) : inv.Covers calls (progress.after k) := by
  induction k with
  | zero => exact h
  | succ k ih =>
    rw [Progress.after_succ]
    cases hk : progress.after k with
    | finished ending =>
      rw [hk] at ih
      exact ih
    | running work m =>
      rw [hk] at ih
      exact covers_step work ih.1 ih.2

theorem Covers.holds {α : Type} {progress : Progress α} (h : inv.Covers [] progress) :
    inv.holds progress.calls progress.machine := by
  cases progress with
  | finished ending => exact h
  | running work m =>
    have hholds := h.2
    rw [List.append_nil] at hholds
    exact hholds

/-- An invariant that holds before a plan holds after any number of its steps. -/
theorem after {α : Type} (plan : Plan α) (hplan : plan.Within top) {m : Machine}
    (h : inv.holds [] m) (k : Nat) :
    inv.holds (plan.after k m).calls (plan.after k m).machine := by
  have hstart : inv.Covers [] (.running (.plan plan) m) := ⟨hplan, h⟩
  exact (covers_after _ hstart k).holds

/-- What is kept since a machine, whichever machine that is, is kept from any moment of a plan to any
later one. -/
theorem since (kept : Machine → Invariant top)
    (hstart : ∀ (calls : List Routine) (m : Machine), (kept m).holds calls m) {α : Type}
    (plan : Plan α) (hplan : plan.Within top) (m : Machine) (k j : Nat) :
    (kept (plan.after k m).machine).holds (plan.after (k + j) m).calls
      (plan.after (k + j) m).machine := by
  have hfirst : (kept m).Covers [] (.running (.plan plan) m) := ⟨hplan, hstart [] m⟩
  have hbefore : (kept m).Covers [] (plan.after k m) := covers_after _ hfirst k
  have hnow : (kept (plan.after k m).machine).Covers [] (plan.after k m) := by
    cases hk : plan.after k m with
    | finished ending => exact hstart _ _
    | running work m' =>
      rw [hk] at hbefore
      exact ⟨hbefore.1, hstart _ _⟩
  have hlater : plan.after (k + j) m = (plan.after k m).after j := Progress.after_add _ k j
  rw [hlater]
  exact (covers_after _ hnow j).holds

end Invariant
end Pseudocode
