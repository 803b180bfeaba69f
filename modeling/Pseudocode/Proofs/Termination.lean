import Pseudocode.Proofs.Budget

/-! # Every run comes to an end

A plan that is carried out step by step, with nothing that counts its loops and calls down, comes to
the very end that the evaluator computes. The measure is the number of steps that are left and then
the plan: a part of a plan is smaller than the whole, and wherever a loop turns or a routine is
entered, so that the plan does not get smaller, a step was paid for.

* `Plan.adequate`: every plan, on every machine whose limit is below the largest count.
* `Program.run_terminates`: every program on every input. -/

namespace Pseudocode
set_option autoImplicit false
open Run

/-! ## Adequacy -/

/-- The plan, carried out step by step, comes to the end that the evaluator computes. -/
def Plan.Adequate {α : Type} (plan : Plan α) (m : Machine) : Prop :=
  Ends (.plan plan) m (plan.denote (invoke m.depthLeft) m)

/-- The limit of steps can be exceeded, and fewer than so many of them are left. -/
structure Machine.Bounded (m : Machine) (n : Nat) : Prop where
  limit : m.limits.maxSteps < maxCount
  left : m.stepsLeft < n

theorem Machine.Account.bounded {m m' : Machine} {n : Nat} (h : m.Account [] m')
    (hm : m.Bounded n) : m'.Bounded n :=
  ⟨h.maxSteps_lt hm.limit, Nat.lt_of_le_of_lt h.stepsLeft_le hm.left⟩

theorem Machine.Bounded.of_less {m m' : Machine} {n : Nat} (h : m.Bounded (n + 1))
    (haccount : m.Account [] m') (hless : m'.stepsLeft < m.stepsLeft) : m'.Bounded n :=
  ⟨haccount.maxSteps_lt h.limit, Nat.lt_of_lt_of_le hless (Nat.le_of_lt_succ h.left)⟩

namespace Plan

theorem adequate_prim {α : Type} (primitive : Primitive α) (m : Machine) :
    (prim primitive).Adequate m :=
  .last rfl

theorem Adequate.bind {α β : Type} {first : Plan β} {next : β → Plan α} {m : Machine}
    (hfirst : first.Adequate m)
    (hnext : ∀ b m', first.denote (invoke m.depthLeft) m = .ok b m' → m.Account [] m' →
      (next b).Adequate m') : (first >>= next).Adequate m := by
  refine .more rfl (Ends.sequence (first.denote (invoke m.depthLeft)) _ hfirst fun b m' hb => ?_)
  have haccount := (first.denote_accounts m.depthLeft).of_ok hb
  have hb' := hnext b m' hb haccount
  -- The rest finds the depth that the first part found.
  rw [Adequate, haccount.depthLeft_eq] at hb'
  exact hb'

theorem Adequate.andThen {first next : Plan Flow} {m : Machine} (hfirst : first.Adequate m)
    (hnext : ∀ m', m.Account [] m' → next.Adequate m') :
    (Plan.andThen first next).Adequate m := by
  refine hfirst.bind fun flow m' _ haccount => ?_
  cases flow with
  | normal => exact hnext m' haccount
  | returned value => exact .last rfl

/-- A turn that is charged for leads to fewer steps. -/
theorem adequate_chargeTurn {n line : Nat} {next : Plan Flow} {m : Machine}
    (hm : m.Bounded (n + 1)) (hnext : ∀ m' : Machine, m'.Bounded n → next.Adequate m') :
    (prim (.chargeTurn line) >>= fun _ => next).Adequate m := by
  refine (adequate_prim _ m).bind fun _ m' hcharge _ => hnext m' ?_
  obtain ⟨haccount, hless⟩ := chargeTurn_ok hm.limit hcharge
  exact hm.of_less haccount hless

/-! ## Loops -/

theorem denote_whileTurn (invoke : Invoke) (condition : Plan Bool) (body : Plan Flow) (line : Nat) :
    (whileTurn condition body line).denote invoke =
      Run.whileTurn (condition.denote invoke) (body.denote invoke) line
        (Run.whileLoop (condition.denote invoke) (body.denote invoke) line) := by
  simp only [whileTurn, Run.whileTurn, denote_then, denote_ite, denote_andThen, denote_return,
    Primitive.run, denote]

theorem denote_repeatTurn (invoke : Invoke) (condition : Plan Bool) (body : Plan Flow)
    (line : Nat) :
    (repeatTurn body condition line).denote invoke =
      Run.repeatTurn (condition.denote invoke) (body.denote invoke) line
        (Run.repeatLoop (body.denote invoke) (condition.denote invoke) line) := by
  simp only [repeatTurn, Run.repeatTurn, denote_then, denote_ite, denote_andThen, denote_return,
    Primitive.run, denote]

section Loops
variable {n line : Nat} {condition : Plan Bool} {body : Plan Flow}
  (hbody : ∀ m : Machine, m.Bounded (n + 1) → body.Adequate m)
include hbody

theorem adequate_whileLoop (hcondition : ∀ m : Machine, m.Bounded (n + 1) → condition.Adequate m)
    (hagain : ∀ m : Machine, m.Bounded n → (whileLoop condition body line).Adequate m)
    {m : Machine} (hm : m.Bounded (n + 1)) : (whileLoop condition body line).Adequate m := by
  have hturn : (whileTurn condition body line).Adequate m := by
    refine (hcondition m hm).bind fun test m₁ _ haccount₁ => ?_
    have hm₁ := haccount₁.bounded hm
    cases test with
    | false => exact .last rfl
    | true =>
      exact (hbody m₁ hm₁).andThen fun m₂ haccount₂ =>
        adequate_chargeTurn (haccount₂.bounded hm₁) hagain
  rw [Adequate, denote_whileTurn, ← whileLoop_eq_turn line (condition.denote_accounts _)
    (body.denote_accounts _) hm.limit] at hturn
  exact .more rfl hturn

theorem adequate_repeatLoop (hcondition : ∀ m : Machine, m.Bounded (n + 1) → condition.Adequate m)
    (hagain : ∀ m : Machine, m.Bounded n → (repeatLoop body condition line).Adequate m)
    {m : Machine} (hm : m.Bounded (n + 1)) : (repeatLoop body condition line).Adequate m := by
  have hturn : (repeatTurn body condition line).Adequate m := by
    refine (hbody m hm).andThen fun m₁ haccount₁ => ?_
    have hm₁ := haccount₁.bounded hm
    refine (hcondition m₁ hm₁).bind fun test m₂ _ haccount₂ => ?_
    cases test with
    | true => exact .last rfl
    | false => exact adequate_chargeTurn (haccount₂.bounded hm₁) hagain
  rw [Adequate, denote_repeatTurn, ← repeatLoop_eq_turn line (condition.denote_accounts _)
    (body.denote_accounts _) hm.limit] at hturn
  exact .more rfl hturn

theorem adequate_countLoop {name : String} {value last step : Entier} {nonzero : step.toInt ≠ 0}
    (hagain : ∀ next (m : Machine), m.Bounded n →
      (countLoop name next last step nonzero body line).Adequate m)
    {m : Machine} (hm : m.Bounded (n + 1)) :
    (countLoop name value last step nonzero body line).Adequate m := by
  have hturn : (countTurn name value last step nonzero body line).Adequate m := by
    unfold countTurn
    split
    · refine Adequate.andThen ?_ fun m₁ haccount₁ => ?_
      · exact (adequate_prim _ m).bind fun _ m₁ _ haccount₁ => hbody m₁ (haccount₁.bounded hm)
      · refine adequate_chargeTurn (haccount₁.bounded hm) fun m₂ hm₂ => ?_
        cases value.add? step with
        | some next => exact hagain next m₂ hm₂
        | none => exact .last rfl
    · exact .last rfl
  rw [Adequate, ← countLoop_eq_turn] at hturn
  exact .more rfl hturn

end Loops

/-! ## Calls -/

theorem adequate_call {n : Nat} {routine : Routine} {values : Values routine.params.length}
    {line : Nat}
    (hbody : ∀ m : Machine, m.Bounded n → (planBlock routine.body).Adequate m) {m : Machine}
    (hm : m.Bounded (n + 1)) : (call routine values line).Adequate m := by
  rw [Adequate, denote]
  cases hcharge : chargeCall routine.name line m with
  | error e m' =>
    have hstart : routine.start values.1 line m = .error e m' := Run.bind_error hcharge
    have hinvoke : ∀ depth, invoke depth routine values.1 line m = .error e m' := by
      intro depth
      cases depth with
      | zero => exact Run.bind_error hcharge
      | succ depth => rw [invoke_succ, Run.bind_error hstart]
    rw [hinvoke]
    exact .last (step_call_error hstart)
  | ok _ m' =>
    obtain ⟨haccount, hless, hroom⟩ := chargeCall_ok hm.limit hcharge
    obtain ⟨depth, hdepth⟩ : ∃ depth, m.depthLeft = depth + 1 :=
      ⟨m.depthLeft - 1, by unfold Machine.depthLeft; omega⟩
    have hstart : routine.start values.1 line m = lift (routine.frame values.1 line) m' :=
      Run.bind_ok hcharge
    rw [hdepth, invoke_succ]
    cases hframe : routine.frame values.1 line with
    | error e =>
      rw [hframe] at hstart
      rw [Run.bind_error hstart]
      exact .last (step_call_error hstart)
    | ok frame =>
      rw [hframe] at hstart
      rw [Run.bind_ok hstart]
      refine .more (step_call_ok hstart) (Ends.sequence (inFrame frame _) _ ?_ fun _ _ _ => .last rfl)
      -- Inside the new scope there is room for one call less.
      have hinner : (m'.push frame).depthLeft = depth := by
        have hleft := haccount.depthLeft_eq
        rw [hdepth] at hleft
        simp only [Machine.depthLeft, Machine.push, List.length_cons] at hleft ⊢
        omega
      have hless' := hm.of_less haccount hless
      have hactive := hbody (m'.push frame) ⟨hless'.limit, hless'.left⟩
      rw [Adequate, hinner, ← execBlock_eq_denote] at hactive
      rw [inFrame_apply]
      exact hactive.active

/-! ## All plans -/

/-- Every plan comes to the end that the evaluator computes. The induction is on the steps that are
left and, inside of that, on the plan. -/
theorem adequate_of_bounded (n : Nat) {α : Type} (plan : Plan α) :
    ∀ m : Machine, m.Bounded n → plan.Adequate m := by
  induction n generalizing α plan with
  | zero => exact fun m hm => absurd hm.left (Nat.not_lt_zero _)
  | succ n below =>
    induction plan with
    | pure a => exact fun m _ => .last rfl
    | prim p => exact fun m _ => adequate_prim p m
    | bind first next ihfirst ihnext =>
      intro m hm
      exact (ihfirst m hm).bind fun b m' _ haccount => ihnext b m' (haccount.bounded hm)
    | whileLoop condition body line ihcondition ihbody =>
      exact fun m hm => adequate_whileLoop ihbody ihcondition (below _) hm
    | repeatLoop body condition line ihbody ihcondition =>
      exact fun m hm => adequate_repeatLoop ihbody ihcondition (below _) hm
    | countLoop name value last step nonzero body line ihbody =>
      exact fun m hm => adequate_countLoop ihbody (fun next => below _) hm
    | call routine values line => exact fun m hm => adequate_call (below _) hm

theorem adequate {α : Type} (plan : Plan α) {m : Machine} (hlimit : m.limits.maxSteps < maxCount) :
    plan.Adequate m :=
  adequate_of_bounded (m.stepsLeft + 1) plan m ⟨hlimit, Nat.lt_succ_self _⟩

end Plan

theorem Program.run_ends (program : Program) {m : Machine} (hlimit : m.limits.maxSteps < maxCount) :
    Ends (.plan program.plan) m (program.run m) := by
  rw [Program.run_eq_denote]
  exact Plan.adequate program.plan hlimit

/-- Every program comes to an end on every input, as long as the limit of steps can be exceeded at
all: from some number of steps on its run is over, with the result or the error that the evaluator
computes. -/
theorem Program.run_terminates (program : Program) (inputs : List String) (limits : Limits)
    (clock : Clock) (hlimit : limits.maxSteps < maxCount) :
    ∃ n, ∀ k ≥ n, program.plan.after k (.initial inputs limits clock) =
      .finished (program.run (.initial inputs limits clock)) := by
  have hends : Ends (.plan program.plan) (.initial inputs limits clock)
      (program.run (.initial inputs limits clock)) := program.run_ends hlimit
  exact hends.after

/-- A loop whose test always holds, within a limit of three turns. -/
theorem Program.run_terminates_endless :
    (3 : Nat) < maxCount ∧
    ∃ n, ∀ k ≥ n,
      (Program.mk none [] [] [] [.whileLoop (.literal (.boolean true) 1) [] 1]).plan.after k
        (.initial [] ⟨3, 1, none⟩ .steady) =
      .finished (.error ⟨.infiniteLoop 3, 1⟩
        { Machine.initial [] ⟨3, 1, none⟩ .steady with steps := 4 }) :=
  ⟨by decide, Program.run_terminates _ [] ⟨3, 1, none⟩ .steady (by decide)⟩

end Pseudocode
