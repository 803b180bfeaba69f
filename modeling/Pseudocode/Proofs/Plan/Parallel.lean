import Pseudocode.Proofs.Budget.Charge
import Pseudocode.Proofs.Likeness.Computation
import Pseudocode.Proofs.Plan.Invariant

/-! # Two runs of one plan, through the evaluator

Two machines on which every primitive does the same, and leaves them such again, are not told apart
by any plan: its two runs end with the same value or the same error. Loops and calls count down the
steps and the depth that are left, so those have to be the same on both machines. In contrast to two
runs side by side, step by step, nothing is asked of the limits here.

* `Run.Mirrors`: a computation does the same on related machines.
* `Parallel`: what has to be known of primitives, and of scopes that open and close.
* `Parallel.invoke`: calls do the same, at whatever depth. -/

namespace Pseudocode
set_option autoImplicit false
open Run

/-- Two computations ended with the same value, or with the same error. -/
inductive Ending.Matches {α : Type} (related : Machine → Machine → Prop) :
    Ending α → Ending α → Prop where
  | ok (a : α) {m m' : Machine} : related m m' → Matches related (.ok a m) (.ok a m')
  | error (e : RuntimeError) {m m' : Machine} :
      related m m' → Matches related (.error e m) (.error e m')

/-! ## Computations -/

namespace Run
variable {α β : Type} {related : Machine → Machine → Prop}

def Mirrors (related : Machine → Machine → Prop) (c : Run α) : Prop :=
  ∀ m m' : Machine, related m m' → Ending.Matches related (c m) (c m')

/-- What does the same on related machines is alike on them, and fails with one error. -/
theorem Mirrors.alike {c : Run α} (h : Mirrors related c) :
    Alike related (fun e e' _ => e = e') c c := by
  intro m m' hrelated
  have hended := h m m' hrelated
  generalize c m = ending at hended ⊢
  generalize c m' = ending' at hended ⊢
  cases hended with
  | ok a hrelated => exact .ok a hrelated
  | error e hrelated => exact .error rfl hrelated

theorem Alike.mirrors {c : Run α} (h : Alike related (fun e e' _ => e = e') c c) :
    Mirrors related c := by
  intro m m' hrelated
  have hended := h m m' hrelated
  generalize c m = ending at hended ⊢
  generalize c m' = ending' at hended ⊢
  cases hended with
  | ok a hrelated => exact .ok a hrelated
  | @error e _ _ _ herror hrelated =>
    subst herror
    exact .error e hrelated

theorem Mirrors.pure (a : α) : Mirrors related (pure a : Run α) := fun _ _ h => .ok a h

theorem Mirrors.lift (result : Except RuntimeError α) : Mirrors related (lift result) := by
  intro m m' h
  cases result with
  | ok a => exact .ok a h
  | error e => exact .error e h

theorem Mirrors.fail (cause : RuntimeCause) (line : Nat) :
    Mirrors related (fail cause line : Run α) := fun _ _ h => .error _ h

theorem Mirrors.bind {c : Run β} {f : β → Run α} (hc : Mirrors related c)
    (hf : ∀ b, Mirrors related (f b)) : Mirrors related (c >>= f) :=
  (hc.alike.bind fun b => (hf b).alike).mirrors

/-- What reads something that the two machines have in common goes on alike. -/
theorem Mirrors.read {f : β → Run α} (view : Machine → β)
    (hview : ∀ m m' : Machine, related m m' → view m' = view m)
    (hf : ∀ b, Mirrors related (f b)) : Mirrors related (do f (view (← get))) := by
  intro m m' h
  have hm' : (do f (view (← get)) : Run α) m' = f (view m) m' := by
    rw [get_bind, hview m m' h]
  rw [get_bind, hm']
  exact hf (view m) m m' h

theorem Mirrors.ite {c : Prop} [Decidable c] {first other : Run α} (hfirst : Mirrors related first)
    (hother : Mirrors related other) : Mirrors related (if c then first else other) :=
  (Alike.ite hfirst.alike hother.alike).mirrors

/-- A call by name does the same wherever its routine is the same and its arguments are. -/
theorem Mirrors.callNamed {invoke : Invoke} (name : String) (count : Nat)
    {arguments : Run (List Value)} (line : Nat)
    (hroutine : ∀ m m' : Machine, related m m' → m'.routine? name = m.routine? name)
    (harguments : Mirrors related arguments)
    (hinvoke : ∀ routine values, Mirrors related (invoke routine values line)) :
    Mirrors related (Run.callNamed invoke name count arguments line) := by
  unfold Run.callNamed
  cases Builtin.find? name with
  | some builtin =>
    refine harguments.bind fun values => .ite ?_ (.fail _ _)
    rw [map_eq_pure_bind]
    exact (Mirrors.lift _).bind fun _ => .pure _
  | none =>
    intro m m' h
    dsimp only
    rw [get_bind, get_bind, hroutine m m' h]
    cases m.routine? name with
    | none => exact .error _ h
    | some routine =>
      have hcall := harguments.bind (hinvoke routine)
      exact Mirrors.ite hcall (.fail _ _) m m' h

end Run

/-! ## Pairs of machines -/

/-- Pairs of machines inside of so many calls, with one budget and as much time, on which the
primitives of statements do the same. -/
structure Parallel where
  related : Nat → Machine → Machine → Prop
  limits {depth : Nat} {m m' : Machine} : related depth m m' → m'.limits = m.limits
  steps {depth : Nat} {m m' : Machine} : related depth m m' → m'.steps = m.steps
  overdue? {depth : Nat} {m m' : Machine} : related depth m m' → m'.overdue? = m.overdue?
  frames {depth : Nat} {m m' : Machine} : related depth m m' → m'.frames.length = m.frames.length
  count (depth : Nat) : Mirrors (related depth) countStep
  primitive (depth : Nat) {α : Type} (p : Primitive α) :
    p.charges = false → Place.statement.covers p.place = true → Mirrors (related (depth + 1)) p.run
  push {depth : Nat} {m m' : Machine} (frame : Environment) :
    related depth m m' → related (depth + 1) (m.push frame) (m'.push frame)
  pop {depth : Nat} {m m' : Machine} : related (depth + 1) m m' → related depth m.pop m'.pop

namespace Parallel
variable {pair : Parallel} {depth : Nat}

/-! ## Charges -/

theorem checkTime (line : Nat) : Mirrors (pair.related depth) (Run.checkTime line) := by
  intro m m' h
  rw [checkTime_eq, checkTime_eq, pair.overdue? h]
  cases m.overdue? with
  | some given => exact .error _ h
  | none => exact .ok () h

theorem chargeTurn (line : Nat) : Mirrors (pair.related depth) (Run.chargeTurn line) := by
  let charge : Limits × Nat → Run Unit := fun (limits, steps) =>
    if limits.maxSteps < steps then fail (.infiniteLoop limits.maxSteps) line else Run.checkTime line
  have hview (m m' : Machine) (h : pair.related depth m m') :
      (m'.limits, m'.steps) = (m.limits, m.steps) := by
    rw [pair.limits h, pair.steps h]
  refine (pair.count depth).bind fun _ => .read (f := charge) _ hview fun view => ?_
  exact .ite (.fail _ _) (checkTime line)

theorem chargeCall (name : String) (line : Nat) :
    Mirrors (pair.related depth) (Run.chargeCall name line) := by
  let charge : Limits × Nat × Nat → Run Unit := fun (limits, steps, active) =>
    if limits.maxSteps < steps then
      fail (.unboundedRecursion name (.steps limits.maxSteps)) line
    else if limits.maxDepth ≤ active then
      fail (.unboundedRecursion name (.depth limits.maxDepth)) line
    else Run.checkTime line
  have hview (m m' : Machine) (h : pair.related depth m m') :
      (m'.limits, m'.steps, m'.frames.length) = (m.limits, m.steps, m.frames.length) := by
    rw [pair.limits h, pair.steps h, pair.frames h]
  refine (pair.count depth).bind fun _ => .read (f := charge) _ hview fun view => ?_
  exact .ite (.fail _ _) (.ite (.fail _ _) (checkTime line))

theorem anyPrimitive {α : Type} (p : Primitive α) (hplace : Place.statement.covers p.place = true) :
    Mirrors (pair.related (depth + 1)) p.run := by
  cases hp : p.charges with
  | false => exact pair.primitive depth p hp hplace
  | true =>
    cases p with
    | chargeTurn line => exact chargeTurn line
    | chargeCall name line => exact chargeCall name line
    | _ => cases hp

/-! ## Loops -/

theorem stepsLeft {m m' : Machine} (h : pair.related depth m m') : m'.stepsLeft = m.stepsLeft := by
  unfold Machine.stepsLeft
  rw [pair.limits h, pair.steps h]

theorem depthLeft (pair : Parallel) {m m' : Machine} (h : pair.related depth m m') :
    m'.depthLeft = m.depthLeft := by
  unfold Machine.depthLeft
  rw [pair.limits h, pair.frames h]

section Loops
variable {condition : Run Bool} {body : Run Flow}

theorem noTurns (line : Nat) :
    Mirrors (pair.related depth) (do fail (.infiniteLoop (← get).limits.maxSteps) line : Run Flow) :=
  .read (fun m => m.limits.maxSteps) (fun _ _ h => congrArg Limits.maxSteps (pair.limits h))
    fun _ => .fail _ _

theorem whileTurns (line : Nat) (hcondition : Mirrors (pair.related (depth + 1)) condition)
    (hbody : Mirrors (pair.related (depth + 1)) body) (turns : Nat) :
    Mirrors (pair.related (depth + 1)) (Run.whileTurns condition body line turns) :=
  (Alike.whileTurns (chargeTurn line).alike (noTurns line).alike hbody.alike hcondition.alike
    turns).mirrors

theorem repeatTurns (line : Nat) (hcondition : Mirrors (pair.related (depth + 1)) condition)
    (hbody : Mirrors (pair.related (depth + 1)) body) (turns : Nat) :
    Mirrors (pair.related (depth + 1)) (Run.repeatTurns body condition line turns) :=
  (Alike.repeatTurns (chargeTurn line).alike (noTurns line).alike hbody.alike hcondition.alike
    turns).mirrors

theorem forTurns (name : String) (last step : Entier) (line : Nat)
    (hbody : Mirrors (pair.related (depth + 1)) body) (value : Entier) :
    Mirrors (pair.related (depth + 1)) (Run.forTurns name last step body line value) := by
  have hassign (value : Value) : Mirrors (pair.related (depth + 1)) (assign name value line) :=
    anyPrimitive (.assign name value line) rfl
  have halike := fun value => (hassign value).alike
  exact (Alike.forTurns (chargeTurn line).alike hbody.alike halike last step value).mirrors

end Loops

/-! ## Plans -/

/-- Plans of statements do the same inside of a call, given that calls do. The induction follows the
plan. -/
theorem denote {invoke : Invoke}
    (hinvoke : ∀ routine values line, Mirrors (pair.related (depth + 1)) (invoke routine values line))
    {α : Type} (plan : Plan α) (hplan : plan.Within .statement) :
    Mirrors (pair.related (depth + 1)) (plan.denote invoke) := by
  induction plan with
  | pure a => exact .pure a
  | prim p => exact anyPrimitive p hplan
  | bind first next ihfirst ihnext =>
    exact (ihfirst hplan.1).bind fun b => ihnext b (hplan.2 b)
  | whileLoop condition body line ihcondition ihbody =>
    have hturns := whileTurns line (ihcondition hplan.2.1) (ihbody hplan.2.2)
    exact .read (fun m => m.stepsLeft) (fun _ _ h => stepsLeft h) fun left => hturns (left + 1)
  | repeatLoop body condition line ihbody ihcondition =>
    have hturns := repeatTurns line (ihcondition hplan.2.1) (ihbody hplan.2.2)
    exact .read (fun m => m.stepsLeft) (fun _ _ h => stepsLeft h) fun left => hturns (left + 1)
  | countLoop name value last step nonzero body line ihbody =>
    exact forTurns name last step line (ihbody hplan.2) value
  | call routine values line => exact hinvoke routine values.1 line

theorem inFrame {α : Type} {c : Run α} (frame : Environment)
    (hc : Mirrors (pair.related (depth + 1)) c) :
    Mirrors (pair.related depth) (Run.inFrame frame c) := by
  have hinside := hc.alike.inFrame (pair.push frame) pair.pop id
  exact hinside.mirrors

/-- The induction is on the number of calls that may still become active. -/
theorem invoke (pair : Parallel) (left : Nat) (routine : Routine) (values : List Value) (line : Nat) :
    Mirrors (pair.related depth) (Pseudocode.invoke left routine values line) := by
  induction left generalizing depth routine values line with
  | zero =>
    have hdepth (m m' : Machine) (h : pair.related depth m m') :
        m'.limits.maxDepth = m.limits.maxDepth := congrArg Limits.maxDepth (pair.limits h)
    exact (chargeCall routine.name line).bind fun _ =>
      .read (fun m => m.limits.maxDepth) hdepth fun limit =>
        .fail (.unboundedRecursion routine.name (.depth limit)) line
  | succ left ih =>
    have hbody : Mirrors (pair.related (depth + 1))
        (execBlock (Pseudocode.invoke left) routine.body) := by
      rw [execBlock_eq_denote]
      exact denote (fun routine values line => ih routine values line) _
        (planBlock_within rfl routine.body)
    refine (chargeCall routine.name line).bind fun _ => ?_
    refine (Mirrors.lift _).bind fun frame => ?_
    exact (inFrame frame hbody).bind fun flow => .lift _

end Parallel
end Pseudocode
