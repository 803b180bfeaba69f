import Pseudocode.Proofs.Commutation

/-! # Who looks at the budget

Two primitives charge for what comes next, a turn of a loop or a call. All others are blind to the
budget: they neither read nor change the count of steps and the limits, so they do the same whatever
these are.

* `Primitive.run_blind`: a primitive that charges nothing does the same on any budget.
* `chargeTurn_eq`, `chargeCall_eq`: what the other two do.
* `Machine.SparesCount`: changes that commute with these wherever they commute with the check of
  the time. -/

namespace Pseudocode
set_option autoImplicit false
open Run

/-- The same machine with another count of steps and other limits. -/
def Machine.rebudget (m : Machine) (steps : Nat) (limits : Limits) : Machine :=
  { m with steps, limits }

def Ending.rebudget {α : Type} (steps : Nat) (limits : Limits) : Ending α → Ending α
  | .ok a m => .ok a (m.rebudget steps limits)
  | .error e m => .error e (m.rebudget steps limits)

/-! ## Computations that do not look -/

theorem Machine.spares_rebudget (steps : Nat) (limits : Limits) :
    Machine.Spares (·.rebudget steps limits) where
  withGlobals _ _ := rfl
  withFrames _ _ := rfl
  withRoutines _ _ := rfl
  withOutput _ _ := rfl

theorem Ending.rebudget_eq_map {α : Type} (steps : Nat) (limits : Limits) (ending : Ending α) :
    Ending.rebudget steps limits ending = Ending.map (·.rebudget steps limits) ending := by
  cases ending <;> rfl

namespace Run
variable {α : Type}

/-- A computation does the same on any budget, which it leaves as it is. -/
def Blind (c : Run α) : Prop :=
  ∀ (m : Machine) (steps : Nat) (limits : Limits),
    c (m.rebudget steps limits) = Ending.rebudget steps limits (c m)

theorem Blind.of_commutes {c : Run α}
    (h : ∀ (steps : Nat) (limits : Limits), Commutes (·.rebudget steps limits) c) : Blind c := by
  intro m steps limits
  rw [Ending.rebudget_eq_map]
  exact h steps limits m

theorem blind_readInto (name : String) (line : Nat) : Blind (readInto name line) := by
  refine .of_commutes fun steps limits m => ?_
  refine commutes_readInto_at (Machine.spares_rebudget steps limits) ?_
  have hinputs : (m.rebudget steps limits).inputs = m.inputs := rfl
  unfold takeInput
  rw [get_bind, get_bind, hinputs]
  cases m.inputs <;> rfl

end Run

/-! ## Primitives -/

namespace Primitive

/-- Whether a primitive charges for what comes next. -/
def charges {α : Type} : Primitive α → Bool
  | chargeCall _ _ | chargeTurn _ => true
  | _ => false

theorem run_blind {α : Type} (p : Primitive α) (h : p.charges = false) : Blind p.run := by
  cases hdraws : p.draws with
  | false =>
    exact .of_commutes fun steps limits => p.run_commutes (Machine.spares_rebudget steps limits) hdraws
  | true =>
    cases p with
    | readInto name line => exact blind_readInto name line
    | chargeCall | chargeTurn => cases h
    | _ => cases hdraws

/-- A primitive that charges nothing leaves the count of steps and the limits as they are. -/
theorem run_budget {α : Type} (p : Primitive α) (h : p.charges = false) (m : Machine) :
    (Ending.machine (p.run m)).steps = m.steps ∧ (Ending.machine (p.run m)).limits = m.limits := by
  have hsame : p.run m = Ending.rebudget m.steps m.limits (p.run m) :=
    run_blind p h m m.steps m.limits
  rw [hsame]
  cases p.run m <;> exact ⟨rfl, rfl⟩

end Primitive

/-! ## Charges -/

/-- The machine after one more step is counted. -/
def Machine.counted (m : Machine) : Machine :=
  if m.steps < maxCount then { m with steps := m.steps + 1 } else m

/-- Below the largest count, counting is adding one. -/
theorem Machine.counted_eq {m : Machine} (h : m.steps < maxCount) :
    m.counted = { m with steps := m.steps + 1 } :=
  if_pos h

theorem Machine.counted_limits (m : Machine) : m.counted.limits = m.limits := by
  unfold Machine.counted
  split <;> rfl

theorem Machine.counted_output (m : Machine) : m.counted.output = m.output := by
  unfold Machine.counted
  split <;> rfl

theorem chargeTurn_eq (line : Nat) (m : Machine) :
    chargeTurn line m =
      if m.counted.limits.maxSteps < m.counted.steps then
        .error ⟨.infiniteLoop m.counted.limits.maxSteps, line⟩ m.counted
      else checkTime line m.counted := by
  change (if m.counted.limits.maxSteps < m.counted.steps then _ else _ : Run Unit) m.counted = _
  split <;> rfl

theorem chargeCall_eq (name : String) (line : Nat) (m : Machine) :
    chargeCall name line m =
      if m.counted.limits.maxSteps < m.counted.steps then
        .error ⟨.unboundedRecursion name (.steps m.counted.limits.maxSteps), line⟩ m.counted
      else if m.counted.limits.maxDepth ≤ m.counted.frames.length then
        .error ⟨.unboundedRecursion name (.depth m.counted.limits.maxDepth), line⟩ m.counted
      else checkTime line m.counted := by
  change (if m.counted.limits.maxSteps < m.counted.steps then _ else _ : Run Unit) m.counted = _
  split
  · rfl
  · change (if m.counted.limits.maxDepth ≤ m.counted.frames.length then _ else _ : Run Unit)
      m.counted = _
    split <;> rfl

theorem checkTime_eq (line : Nat) (m : Machine) :
    checkTime line m =
      match m.overdue? with
      | some given => .error ⟨.timeout given.millis, line⟩ m
      | none => .ok () m := by
  unfold checkTime
  rw [get_bind]
  cases m.overdue? <;> rfl

theorem checkTime_noTime {limits : Limits} (h : limits.timeout = none) {m : Machine}
    (hm : m.limits = limits) (line : Nat) : checkTime line m = .ok () m := by
  have hoverdue : m.overdue? = none := by
    rw [Machine.overdue?, hm, h]
    rfl
  rw [checkTime_eq, hoverdue]

/-! ## Changes that charges do not see -/

/-- A change that leaves the limits and the count of steps alone, and is the same whatever the count
is. -/
structure Machine.SparesCount (f : Machine → Machine) : Prop where
  withSteps (m : Machine) (steps : Nat) : f { m with steps } = { f m with steps }
  limits (m : Machine) : (f m).limits = m.limits

section SparesCount
variable {f : Machine → Machine} (hcount : Machine.SparesCount f) {m : Machine} {line : Nat}
  (htime : checkTime line (f m.counted) = Ending.map f (checkTime line m.counted))
include hcount

theorem Machine.SparesCount.steps (m : Machine) : (f m).steps = m.steps := by
  have hsame : f m = { f m with steps := m.steps } := hcount.withSteps m m.steps
  rw [hsame]

theorem Machine.SparesCount.counted (m : Machine) : (f m).counted = f m.counted := by
  unfold Machine.counted
  rw [hcount.steps]
  split
  · exact (hcount.withSteps m (m.steps + 1)).symm
  · rfl

include htime

theorem commutes_chargeTurn_at :
    chargeTurn line (f m) = Ending.map f (chargeTurn line m) := by
  rw [chargeTurn_eq, chargeTurn_eq, hcount.counted, hcount.limits, hcount.steps]
  split
  · rfl
  · exact htime

theorem commutes_chargeCall_at (hf : Machine.Spares f) (name : String) :
    chargeCall name line (f m) = Ending.map f (chargeCall name line m) := by
  rw [chargeCall_eq, chargeCall_eq, hcount.counted, hcount.limits, hcount.steps, hf.frames]
  split
  · rfl
  · split
    · rfl
    · exact htime

end SparesCount

/-- The causes by which a run is stopped that has used up its steps or its depth. -/
def RuntimeCause.isBudget : RuntimeCause → Bool
  | .infiniteLoop _ | .unboundedRecursion _ _ => true
  | _ => false

end Pseudocode
