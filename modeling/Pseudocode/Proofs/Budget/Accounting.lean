import Pseudocode.Proofs.Budget.Charge
import Pseudocode.Proofs.Plan.Discipline
import Pseudocode.Proofs.Termination
import Pseudocode.Proofs.TypeSoundness

/-! # Every step and every scope is accounted for

A step is counted before a loop turns and before a routine is entered, and nothing goes on once a
charge has failed. So at every moment of a computation the steps are within their limit, the scopes
are within theirs, and there are no more new scopes than steps were counted. Only the charge that
fails counts one step too many, and its error says so.

* `Machine.Spent`: what has been used up since an earlier moment.
* `spending`: the discipline of a computation that starts within its budget.
* `Action.within_budget`: blocks, expressions and whole programs. -/

namespace Pseudocode
set_option autoImplicit false
open Run

/-! ## What has been used up -/

/-- Since the earlier machine, every scope that was opened and is still open was paid for. -/
structure Machine.Spent (before m : Machine) : Prop where
  limits : m.limits = before.limits
  depth : m.frames.length ≤ before.limits.maxDepth
  steps : before.steps ≤ m.steps
  paid : m.frames.length + before.steps ≤ before.frames.length + m.steps

/-- The steps are within their limit. -/
def Machine.Solvent (before m : Machine) : Prop :=
  before.Spent m ∧ m.steps ≤ before.limits.maxSteps

/-- One step too many may have been counted by the charge that failed. -/
def Machine.Stopped (before : Machine) (e : RuntimeError) (m : Machine) : Prop :=
  before.Spent m ∧ (m.steps ≤ before.limits.maxSteps ∨
    m.steps = before.limits.maxSteps + 1 ∧ e.cause.isBudget = true)

section Steps
variable {before m : Machine}

theorem Machine.Spent.pop (h : before.Spent m) : before.Spent m.pop := by
  have hlength : m.pop.frames.length ≤ m.frames.length := by
    simp only [Machine.pop, List.length_tail]
    omega
  have hdepth := h.depth
  have hpaid := h.paid
  exact ⟨h.limits, by omega, h.steps, by have hsteps : m.pop.steps = m.steps := rfl; omega⟩

theorem Machine.Spent.count (h : before.Spent m) :
    before.Spent { m with steps := m.steps + 1 } := by
  have hsteps := h.steps
  have hpaid := h.paid
  exact ⟨h.limits, h.depth, Nat.le_succ_of_le hsteps, Nat.le_succ_of_le hpaid⟩

/-- A step that is counted within the limit is one more; the count is not the largest one yet. -/
theorem Machine.Solvent.counted (hlimit : before.limits.maxSteps < maxCount)
    (h : before.Solvent m) : m.counted = { m with steps := m.steps + 1 } := by
  have hsteps := h.2
  exact Machine.counted_eq (by omega)

theorem Machine.Solvent.chargeTurn (hlimit : before.limits.maxSteps < maxCount)
    (h : before.Solvent m) (line : Nat) :
    Ending.Sorted (fun _ => before.Solvent) before.Stopped (Run.chargeTurn line m) := by
  have hspent := h.1.count
  have hsteps := h.2
  rw [chargeTurn_eq, h.counted hlimit]
  split
  · rename_i hover
    simp only [h.1.limits] at hover
    exact ⟨hspent, .inr ⟨by simp only; omega, rfl⟩⟩
  · rename_i hunder
    simp only [h.1.limits] at hunder
    rw [checkTime_eq]
    split
    · exact ⟨hspent, .inl (by simp only; omega)⟩
    · exact ⟨hspent, by simp only; omega⟩

/-- A call that was charged for has room for its scope, and has paid for it. -/
theorem Machine.Solvent.chargeCall (hlimit : before.limits.maxSteps < maxCount)
    (h : before.Solvent m) (name : String) (line : Nat) :
    Ending.Sorted (fun _ m' => before.Solvent m' ∧ ∀ frame, before.Solvent (m'.push frame))
      before.Stopped (Run.chargeCall name line m) := by
  have hspent := h.1.count
  have hsteps := h.2
  have hpaid := h.1.paid
  rw [chargeCall_eq, h.counted hlimit]
  split
  · rename_i hover
    simp only [h.1.limits] at hover
    exact ⟨hspent, .inr ⟨by simp only; omega, rfl⟩⟩
  · rename_i hunder
    simp only [h.1.limits] at hunder
    split
    · exact ⟨hspent, .inl (by simp only; omega)⟩
    · rename_i hroom
      simp only [h.1.limits] at hroom
      rw [checkTime_eq]
      split
      · exact ⟨hspent, .inl (by simp only; omega)⟩
      · refine ⟨⟨hspent, by simp only; omega⟩, fun frame => ⟨⟨hspent.limits, ?_, hspent.steps, ?_⟩, ?_⟩⟩
        · simp only [Machine.push, List.length_cons]
          omega
        · simp only [Machine.push, List.length_cons]
          omega
        · simp only [Machine.push]
          omega

/-- A primitive that charges nothing uses nothing up. -/
theorem Machine.Spent.primitive {α : Type} (p : Primitive α) (hp : p.charges = false)
    (h : before.Spent m) :
    before.Spent (Ending.machine (p.run m)) ∧ (Ending.machine (p.run m)).steps = m.steps := by
  have haccount : m.Account [] (Ending.machine (p.run m)) :=
    (account m).primitive rfl ⟨rfl, rfl, Nat.le_refl _⟩
  have hframes := haccount.depth
  have hsteps := (p.run_budget hp m).1
  have hdepth := h.depth
  have hpaid := h.paid
  have hcount := h.steps
  rw [List.length_nil] at hframes
  exact ⟨⟨haccount.limits.trans h.limits, by omega, by omega, by omega⟩, hsteps⟩

theorem Machine.Solvent.primitive {α : Type} (hlimit : before.limits.maxSteps < maxCount)
    (h : before.Solvent m) (p : Primitive α) :
    Ending.Sorted (fun _ => before.Solvent) before.Stopped (p.run m) := by
  cases hp : p.charges with
  | true =>
    cases p with
    | chargeTurn line => exact h.chargeTurn hlimit line
    | chargeCall name line =>
      have hcharge := h.chargeCall hlimit name line
      rw [Primitive.run]
      cases hm : Run.chargeCall name line m <;> rw [hm] at hcharge
      · exact hcharge.1
      · exact hcharge
    | _ => cases hp
  | false =>
    obtain ⟨hspent, hsteps⟩ := h.1.primitive p hp
    have hle := h.2
    cases hm : p.run m with
    | ok a m' =>
      rw [hm] at hspent hsteps
      exact ⟨hspent, hsteps.trans_le hle⟩
    | error e m' =>
      rw [hm] at hspent hsteps
      exact ⟨hspent, .inl (hsteps.trans_le hle)⟩

theorem Machine.Solvent.start (hlimit : before.limits.maxSteps < maxCount) (h : before.Solvent m)
    (routine : Routine) (values : List Value) (line : Nat) :
    Ending.Sorted (fun frame m' => before.Solvent (m'.push frame)) before.Stopped
      (routine.start values line m) := by
  have hcharge := h.chargeCall hlimit routine.name line
  unfold Routine.start
  cases hm : Run.chargeCall routine.name line m with
  | error e m' =>
    rw [hm] at hcharge
    rw [bind_error hm]
    exact hcharge
  | ok _ m' =>
    rw [hm] at hcharge
    rw [bind_ok hm]
    cases routine.frame values line with
    | ok frame => exact hcharge.2 frame
    | error e => exact ⟨hcharge.1.1, .inl hcharge.1.2⟩

end Steps

/-- A computation that starts within its budget. -/
def spending (before : Machine) (hlimit : before.limits.maxSteps < maxCount) : Discipline where
  running := before.Solvent
  failed := before.Stopped
  primitive p _ h := h.primitive hlimit p
  start routine values line _ h := h.start hlimit routine values line
  pop h := ⟨h.1.pop, h.2⟩
  pop_failed h := ⟨h.1.pop, h.2⟩

/-! ## Whole computations -/

theorem RuntimeCause.isBudget_cases {cause : RuntimeCause} (h : cause.isBudget = true) :
    (∃ limit, cause = .infiniteLoop limit) ∨ ∃ name budget, cause = .unboundedRecursion name budget := by
  cases cause with
  | infiniteLoop limit => exact .inl ⟨limit, rfl⟩
  | unboundedRecursion name budget => exact .inr ⟨name, budget, rfl⟩
  | _ => cases h

/-- At every moment, and at the end, as many scopes are open as were paid for. -/
theorem Discipline.Obeys.spent {before : Machine} {hlimit : before.limits.maxSteps < maxCount}
    {α : Type} {progress : Progress α} (h : (spending before hlimit).Obeys progress) :
    before.Spent progress.machine := by
  cases progress with
  | running work m => exact h.1
  | finished ending => cases ending <;> exact h.1

/-- Whatever is asked of a machine that is within its budget, it stays so at every moment: the scopes
are within their limit, and there are no more new ones than steps were counted since. At the end,
which comes, at most one step too many was counted, and then the error says that the steps or the
depth are used up. -/
theorem Action.within_budget (action : Action) {m : Machine}
    (hlimit : m.limits.maxSteps < maxCount) (hsteps : m.steps ≤ m.limits.maxSteps)
    (hdepth : m.frames.length ≤ m.limits.maxDepth) :
    (∀ k, let now := (action.plan.after k m).machine
      now.frames.length ≤ m.limits.maxDepth ∧
        now.frames.length - m.frames.length ≤ now.steps - m.steps) ∧
    (∃ n, ∀ k ≥ n, action.plan.after k m = .finished (action.perform m)) ∧
    (Ending.machine (action.perform m)).steps ≤ m.limits.maxSteps + 1 ∧
    ((Ending.machine (action.perform m)).steps = m.limits.maxSteps + 1 →
      ∃ e m', action.perform m = .error e m' ∧ ((∃ limit, e.cause = .infiniteLoop limit) ∨
        ∃ name budget, e.cause = .unboundedRecursion name budget)) ∧
    ∀ answer m', action.perform m = .ok answer m' → m'.steps ≤ m.limits.maxSteps := by
  have hstart : m.Solvent m := ⟨⟨rfl, hdepth, Nat.le_refl _, Nat.le_refl _⟩, hsteps⟩
  have hobeys (k : Nat) : (spending m hlimit).Obeys (action.plan.after k m) :=
    Discipline.after action.plan hstart k
  have hadequate : action.plan.Adequate m := Plan.adequate _ hlimit
  rw [Plan.Adequate, ← action.perform_eq_denote] at hadequate
  obtain ⟨n, hn⟩ := hadequate.after
  -- the end is the last of the moments
  have hend : Ending.Sorted (fun _ => m.Solvent) m.Stopped (action.perform m) := by
    have hlast := hobeys n
    rw [Plan.after, hn n (Nat.le_refl n)] at hlast
    exact hlast
  refine ⟨fun k => ?_, ⟨n, hn⟩, ?_⟩
  · have hspent := (hobeys k).spent
    have hpaid := hspent.paid
    exact ⟨hspent.depth, by omega⟩
  · cases hperform : action.perform m with
    | ok answer m' =>
      rw [hperform] at hend
      have hwithin : m'.steps ≤ m.limits.maxSteps := hend.2
      refine ⟨Nat.le_succ_of_le hwithin, fun hover => ?_, fun answer' m'' hok => ?_⟩
      · simp only [Ending.machine] at hover
        omega
      · cases hok
        exact hwithin
    | error e m' =>
      rw [hperform] at hend
      refine ⟨?_, fun hover => ⟨e, m', rfl, ?_⟩, fun answer' m'' hok => by cases hok⟩
      · rcases hend.2 with hle | ⟨heq, -⟩
        · exact Nat.le_succ_of_le hle
        · exact Nat.le_of_eq heq
      · simp only [Ending.machine] at hover
        rcases hend.2 with hle | ⟨-, hbudget⟩
        · omega
        · exact RuntimeCause.isBudget_cases hbudget

/-- A procedure that only calls itself, within a limit of two steps: at the third call the steps are
used up, while two scopes are open. -/
theorem Action.within_budget_recursion :
    let f : Routine := ⟨.procedure, "f", [], none, [], [.call "f" [] 1], 1⟩
    let m := { Machine.initial [] ⟨2, 5, none⟩ .steady with routines := [(Text.nameKey "f", f)] }
    let action : Action := .execBlock [.call "f" [] 2]
    (∃ k, (action.plan.after k m).machine.frames.length = 2 ∧
      2 - m.frames.length ≤ (action.plan.after k m).machine.steps - m.steps) ∧
    (Ending.machine (action.perform m)).steps = 2 + 1 ∧
    ∃ e m', action.perform m = .error e m' ∧ ((∃ limit, e.cause = .infiniteLoop limit) ∨
      ∃ name budget, e.cause = .unboundedRecursion name budget) := by
  intro f m action
  have hlimit : m.limits.maxSteps < maxCount := by decide
  obtain ⟨hmoments, -, -, hover, -⟩ :=
    Action.within_budget action hlimit (Nat.zero_le _) (Nat.zero_le _)
  have hsteps : (Ending.machine (action.perform m)).steps = 2 + 1 := rfl
  have hframes : (action.plan.after 20 m).machine.frames.length = 2 := rfl
  have hpaid := (hmoments 20).2
  rw [hframes] at hpaid
  exact ⟨⟨20, hframes, hpaid⟩, hsteps, hover hsteps⟩

end Pseudocode
