import Mathlib.Order.Basic
import Pseudocode.Proofs.Plan.Invariant

/-! # The account of steps and calls

Whatever a computation does, it leaves the limits alone, it closes as many scopes as it opens, and
the steps that were counted stay counted. Together with the one fact that a charge which succeeds
uses up a step, this is why the bounds that the evaluator counts down are never what stops it:

* `whileLoop_eq_turn`, `repeatLoop_eq_turn`: a loop is one turn and the loop again.
* `Program.run_eq_denote`: a program, whose parts look up the depth anew, does what its plan
  does. -/

namespace Pseudocode
set_option autoImplicit false
open Run

/-! ## The account as an invariant -/

/-- What a machine has in common with an earlier one on which the given calls were not active. -/
structure Machine.Account (before : Machine) (calls : List Routine) (after : Machine) : Prop where
  depth : after.frames.length = before.frames.length + calls.length
  limits : after.limits = before.limits
  steps : before.steps ≤ after.steps

theorem Machine.set_frames_length (m : Machine) (name : String) (value : Value) :
    (m.set name value).frames.length = m.frames.length := by
  unfold Machine.set
  split <;> simp [*]

theorem Machine.set_limits (m : Machine) (name : String) (value : Value) :
    (m.set name value).limits = m.limits := by
  unfold Machine.set
  split <;> rfl

theorem Machine.set_steps (m : Machine) (name : String) (value : Value) :
    (m.set name value).steps = m.steps := by
  unfold Machine.set
  split <;> rfl

theorem Change.account {before m m' : Machine} {calls : List Routine} {place : Place}
    (hchange : Change place m m') (h : before.Account calls m) : before.Account calls m' := by
  obtain ⟨hdepth, hlimits, hsteps⟩ := h
  cases hchange with
  | count => exact ⟨hdepth, hlimits, Nat.le_succ_of_le hsteps⟩
  | @store _ name _ value =>
    exact ⟨(m.set_frames_length name value).trans hdepth, (m.set_limits name value).trans hlimits,
      hsteps.trans_eq (m.set_steps name value).symm⟩
  | take | write | register | bind => exact ⟨hdepth, hlimits, hsteps⟩

/-- The account relative to an earlier machine. -/
def account (before : Machine) : Invariant .program where
  holds := before.Account
  change _ hchange h := hchange.account h
  push {routine _ _ frame calls m} _ h := by
    refine ⟨?_, h.limits, h.steps⟩
    have hdepth := h.depth
    simp only [Machine.push, List.length_cons]
    omega
  pop {routine calls m} h := by
    refine ⟨?_, h.limits, h.steps⟩
    have hdepth := h.depth
    simp only [Machine.pop, List.length_tail, List.length_cons] at hdepth ⊢
    omega

/-- A computation keeps the account. -/
def Run.Accounts {α : Type} (c : Run α) : Prop := ∀ m : Machine, m.Account [] (Ending.machine (c m))

theorem Plan.within_program {α : Type} (plan : Plan α) : plan.Within .program := by
  induction plan with
  | pure a => trivial
  | prim p => rfl
  | bind first next ihfirst ihnext => exact ⟨ihfirst, ihnext⟩
  | whileLoop condition body line ihcondition ihbody => exact ⟨rfl, ihcondition, ihbody⟩
  | repeatLoop body condition line ihbody ihcondition => exact ⟨rfl, ihcondition, ihbody⟩
  | countLoop name value last step nonzero body line ihbody => exact ⟨rfl, ihbody⟩
  | call routine values line => trivial

theorem Plan.denote_accounts {α : Type} (plan : Plan α) (depth : Nat) :
    Accounts (plan.denote (invoke depth)) := by
  intro m
  have hkeeps : (account m).Keeps [] (plan.denote (invoke depth)) :=
    Invariant.denote (Invariant.invoke depth []) plan plan.within_program
  exact hkeeps m ⟨rfl, rfl, Nat.le_refl _⟩

namespace Machine.Account
variable {before after : Machine} (h : before.Account [] after)
include h

theorem depthLeft_eq : after.depthLeft = before.depthLeft := by
  unfold depthLeft
  rw [h.limits, h.depth]
  rfl

theorem stepsLeft_le : after.stepsLeft ≤ before.stepsLeft := by
  have hsteps := h.steps
  unfold stepsLeft
  rw [h.limits]
  omega

theorem maxSteps_lt (hlimit : before.limits.maxSteps < maxCount) :
    after.limits.maxSteps < maxCount := by
  rw [h.limits]
  exact hlimit

end Machine.Account

/-- What is known of the machine after a computation that keeps the account and succeeds. -/
theorem Run.Accounts.of_ok {α : Type} {c : Run α} (hc : Accounts c) {m m' : Machine} {a : α}
    (h : c m = .ok a m') : m.Account [] m' := by
  have hm := hc m
  rw [h] at hm
  exact hm

/-! ## Charges -/

theorem checkTime_ok {line : Nat} {m m' : Machine} (h : checkTime line m = .ok () m') : m' = m := by
  have hm := checkTime_machine line m
  rw [h] at hm
  exact hm

/-- A step that is counted within the limit leaves one step less: the count was not the largest one,
since that exceeds the limit. -/
theorem countStep_ok {m m' : Machine} (hlimit : m.limits.maxSteps < maxCount)
    (h : countStep m = .ok () m') (hle : m'.steps ≤ m'.limits.maxSteps) :
    m.Account [] m' ∧ m'.stepsLeft < m.stepsLeft ∧ m'.frames = m.frames := by
  by_cases hcount : m.steps < maxCount
  · have hm' : m' = { m with steps := m.steps + 1 } := by
      cases h
      exact if_pos hcount
    subst hm'
    refine ⟨⟨rfl, rfl, Nat.le_succ _⟩, ?_, rfl⟩
    simp only [Machine.stepsLeft] at hle ⊢
    omega
  · have hm' : m' = m := by
      cases h
      exact if_neg hcount
    subst hm'
    omega

/-- A turn that was charged for has used up a step. -/
theorem chargeTurn_ok {line : Nat} {m m' : Machine} (hlimit : m.limits.maxSteps < maxCount)
    (h : chargeTurn line m = .ok () m') : m.Account [] m' ∧ m'.stepsLeft < m.stepsLeft := by
  obtain ⟨_, m₁, hcount, hcheck⟩ := bind_eq_ok h
  rw [get_bind] at hcheck
  split at hcheck
  · cases hcheck
  · rename_i hle
    obtain rfl := checkTime_ok hcheck
    obtain ⟨haccount, hless, -⟩ := countStep_ok hlimit hcount (Nat.le_of_not_lt hle)
    exact ⟨haccount, hless⟩

/-- What follows a turn only matters where fewer steps are left. -/
theorem chargeTurn_congr {f g : Run Flow} {m : Machine} (line : Nat)
    (hlimit : m.limits.maxSteps < maxCount)
    (h : ∀ m' : Machine, m'.limits.maxSteps < maxCount → m'.stepsLeft < m.stepsLeft → f m' = g m') :
    (chargeTurn line >>= fun _ => f) m = (chargeTurn line >>= fun _ => g) m := by
  refine bind_congr_at rfl fun _ m' hm' => ?_
  obtain ⟨haccount, hless⟩ := chargeTurn_ok hlimit hm'
  exact h m' (haccount.maxSteps_lt hlimit) hless

/-- A call that was charged for has used up a step, and there was room for its scope. -/
theorem chargeCall_ok {name : String} {line : Nat} {m m' : Machine}
    (hlimit : m.limits.maxSteps < maxCount) (h : chargeCall name line m = .ok () m') :
    m.Account [] m' ∧ m'.stepsLeft < m.stepsLeft ∧ m.frames.length < m.limits.maxDepth := by
  obtain ⟨_, m₁, hcount, hcheck⟩ := bind_eq_ok h
  rw [get_bind] at hcheck
  split at hcheck
  · cases hcheck
  · rename_i hle
    split at hcheck
    · cases hcheck
    · rename_i hroom
      obtain rfl := checkTime_ok hcheck
      obtain ⟨haccount, hless, hframes⟩ := countStep_ok hlimit hcount (Nat.le_of_not_lt hle)
      rw [haccount.limits, hframes] at hroom
      exact ⟨haccount, hless, Nat.lt_of_not_le hroom⟩

/-! ## Loops with a test -/

section Loops
variable (condition : Run Bool) (body : Run Flow) (line : Nat)

/-- One turn of a loop with its test before the body, and what follows it. -/
def Run.whileTurn (next : Run Flow) : Run Flow := do
  if ← condition then andThen body do chargeTurn line; next
  else return .normal

/-- One turn of a loop with its test after the body, and what follows it. -/
def Run.repeatTurn (next : Run Flow) : Run Flow :=
  andThen body do
    if ← condition then return .normal
    else chargeTurn line; next

variable {condition body} (hcondition : Accounts condition) (hbody : Accounts body)
include hcondition hbody

/-- Two ways to go on after a turn make no difference if they agree with fewer steps left. -/
theorem whileTurn_congr {f g : Run Flow} {m : Machine} (hlimit : m.limits.maxSteps < maxCount)
    (h : ∀ m' : Machine, m'.limits.maxSteps < maxCount → m'.stepsLeft < m.stepsLeft → f m' = g m') :
    whileTurn condition body line f m = whileTurn condition body line g m := by
  refine bind_congr_at rfl fun test m₁ hm₁ => ?_
  have haccount₁ := hcondition.of_ok hm₁
  cases test with
  | false => rfl
  | true =>
    refine bind_congr_at rfl fun flow m₂ hm₂ => ?_
    have haccount₂ := hbody.of_ok hm₂
    cases flow with
    | returned value => rfl
    | normal =>
      have hlimit₂ := haccount₂.maxSteps_lt (haccount₁.maxSteps_lt hlimit)
      have hle₁ := haccount₁.stepsLeft_le
      have hle₂ := haccount₂.stepsLeft_le
      exact chargeTurn_congr line hlimit₂ fun m₃ hlimit₃ hless => h m₃ hlimit₃ (by omega)

theorem repeatTurn_congr {f g : Run Flow} {m : Machine} (hlimit : m.limits.maxSteps < maxCount)
    (h : ∀ m' : Machine, m'.limits.maxSteps < maxCount → m'.stepsLeft < m.stepsLeft → f m' = g m') :
    repeatTurn condition body line f m = repeatTurn condition body line g m := by
  refine bind_congr_at rfl fun flow m₁ hm₁ => ?_
  have haccount₁ := hbody.of_ok hm₁
  cases flow with
  | returned value => rfl
  | normal =>
    refine bind_congr_at rfl fun test m₂ hm₂ => ?_
    have haccount₂ := hcondition.of_ok hm₂
    cases test with
    | true => rfl
    | false =>
      have hlimit₂ := haccount₂.maxSteps_lt (haccount₁.maxSteps_lt hlimit)
      have hle₁ := haccount₁.stepsLeft_le
      have hle₂ := haccount₂.stepsLeft_le
      exact chargeTurn_congr line hlimit₂ fun m₃ hlimit₃ hless => h m₃ hlimit₃ (by omega)

/-- Any number of turns beyond the steps that are left gives the same result. -/
theorem whileTurns_enough (turns : Nat) {turns' : Nat} {m : Machine}
    (hlimit : m.limits.maxSteps < maxCount) (h : m.stepsLeft < turns) (h' : m.stepsLeft < turns') :
    whileTurns condition body line turns m = whileTurns condition body line turns' m := by
  induction turns generalizing turns' m with
  | zero => omega
  | succ turns ih =>
    obtain ⟨turns', rfl⟩ : ∃ k, turns' = k + 1 := ⟨turns' - 1, by omega⟩
    refine whileTurn_congr line hcondition hbody hlimit fun m' hlimit' hless => ?_
    exact ih hlimit' (by omega) (by omega)

theorem repeatTurns_enough (turns : Nat) {turns' : Nat} {m : Machine}
    (hlimit : m.limits.maxSteps < maxCount) (h : m.stepsLeft < turns) (h' : m.stepsLeft < turns') :
    repeatTurns body condition line turns m = repeatTurns body condition line turns' m := by
  induction turns generalizing turns' m with
  | zero => omega
  | succ turns ih =>
    obtain ⟨turns', rfl⟩ : ∃ k, turns' = k + 1 := ⟨turns' - 1, by omega⟩
    refine repeatTurn_congr line hcondition hbody hlimit fun m' hlimit' hless => ?_
    exact ih hlimit' (by omega) (by omega)

/-- A loop with its test before the body is one turn and the loop again. -/
theorem whileLoop_eq_turn {m : Machine} (hlimit : m.limits.maxSteps < maxCount) :
    whileLoop condition body line m =
      whileTurn condition body line (whileLoop condition body line) m := by
  change whileTurns condition body line (m.stepsLeft + 1) m = _
  refine whileTurn_congr line hcondition hbody hlimit fun m' hlimit' hless => ?_
  exact whileTurns_enough line hcondition hbody _ hlimit' hless (Nat.lt_succ_self _)

/-- A loop with its test after the body is one turn and the loop again. -/
theorem repeatLoop_eq_turn {m : Machine} (hlimit : m.limits.maxSteps < maxCount) :
    repeatLoop body condition line m =
      repeatTurn condition body line (repeatLoop body condition line) m := by
  change repeatTurns body condition line (m.stepsLeft + 1) m = _
  refine repeatTurn_congr line hcondition hbody hlimit fun m' hlimit' hless => ?_
  exact repeatTurns_enough line hcondition hbody _ hlimit' hless (Nat.lt_succ_self _)

end Loops

/-! ## Programs -/

namespace Program

theorem planRoutines_denote (routines : List Routine) (invoke : Invoke) (m : Machine) :
    (planRoutines routines).denote invoke m = registerRoutines routines m := by
  induction routines generalizing m with
  | nil => rfl
  | cons routine rest ih =>
    change (registerRoutines [routine] >>= fun _ => (planRoutines rest).denote invoke) m = _
    unfold registerRoutines
    rw [bind_assoc, get_bind, get_bind]
    cases m.routine? routine.name with
    | some found => rfl
    | none => exact ih _

theorem planConstants_denote (constants : List ConstDecl) (m : Machine) :
    (planConstants constants).denote (invoke m.depthLeft) m = defineConstants constants m := by
  induction constants generalizing m with
  | nil => rfl
  | cons constant rest ih =>
    have hvalue := constant.value.run_eq_denote m
    -- The rest of the constants finds the same depth as the first one.
    have hrest : ∀ m' : Machine, m.Account [] m' →
        (planConstants rest).denote (invoke m.depthLeft) m' = defineConstants rest m' := by
      intro m' haccount
      rw [← haccount.depthLeft_eq]
      exact ih m'
    rw [planConstants, defineConstants, defineConstant, bind_assoc]
    refine bind_congr_at hvalue.symm fun value m₁ hm₁ => ?_
    rw [hvalue] at hm₁
    have haccount := (constant.value.plan.denote_accounts m.depthLeft).of_ok hm₁
    refine bind_congr_at rfl fun _ m₂ hm₂ => hrest m₂ ?_
    have hbind : (account m).holds [] (Ending.machine (bindConstant constant value m₁)) :=
      (account m).changes rfl (bindConstant_changes constant value m₁) haccount
    rw [hm₂] at hbind
    exact hbind

theorem planVariables_denote (names : List (String × Ty × Nat)) (invoke : Invoke) (m : Machine) :
    (planVariables names).denote invoke m = declareVariables names m := by
  induction names generalizing m with
  | nil => rfl
  | cons name rest ih => exact bind_congr_at rfl fun _ m' _ => ih m'

/-- A program does what its plan does. Its parts find the same depth, since each of them closes the
scopes that it opens. -/
theorem run_eq_denote (program : Program) (m : Machine) :
    program.run m = program.plan.denote (invoke m.depthLeft) m := by
  symm
  refine bind_congr_at (planRoutines_denote _ _ m) fun _ m₁ hm₁ => ?_
  rw [← planRoutines_denote _ (invoke m.depthLeft)] at hm₁
  have haccount₁ := (Plan.denote_accounts _ _).of_ok hm₁
  rw [← haccount₁.depthLeft_eq]
  refine bind_congr_at (planConstants_denote _ m₁) fun _ m₂ hm₂ => ?_
  rw [← planConstants_denote] at hm₂
  have haccount₂ := (Plan.denote_accounts _ _).of_ok hm₂
  rw [← haccount₂.depthLeft_eq]
  refine bind_congr_at (planVariables_denote _ _ m₂) fun _ m₃ hm₃ => ?_
  rw [← planVariables_denote _ (invoke m₂.depthLeft)] at hm₃
  have haccount₃ := (Plan.denote_accounts _ _).of_ok hm₃
  rw [← haccount₃.depthLeft_eq, Plan.denote_then, ← execBlock_eq_denote]
  rfl

end Program
end Pseudocode
