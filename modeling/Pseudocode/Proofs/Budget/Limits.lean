import Pseudocode.Proofs.Budget.Charge
import Pseudocode.Proofs.Plan.Lockstep
import Pseudocode.Proofs.Termination

/-! # Larger limits

Two runs of one program that differ in their limits go side by side, on machines that differ in
nothing else, until one of them may not go on. That is the one with the smaller limits, and its error
says so: the limits are only looked at by the two charges, and a charge that is within the smaller
limits is within the larger ones. So limits only cut runs short.

* `Limits.Below`: limits that allow less, without a limit of time.
* `sideBySide`: the two machines, and how primitives follow each other on them.
* `Program.run_larger_limits`: whole programs. -/

namespace Pseudocode
set_option autoImplicit false
open Run

/-- The first limits allow no more than the second, and neither of them limits the time. -/
structure Limits.Below (small large : Limits) : Prop where
  steps : small.maxSteps ≤ large.maxSteps
  depth : small.maxDepth ≤ large.maxDepth
  noTime : small.timeout = none
  noTime' : large.timeout = none

/-- The error of a run whose steps or depth are used up. -/
def RuntimeError.IsBudget (e : RuntimeError) : Prop := e.cause.isBudget = true

/-- The same machine with other limits. -/
def Machine.relimit (m : Machine) (limits : Limits) : Machine := { m with limits }

/-- Two machines of which the second has the larger limits, and which are the same otherwise. -/
def Machine.Beside (small large : Limits) (m m' : Machine) : Prop :=
  m.limits = small ∧ m' = m.relimit large

section Beside
variable {small large : Limits} {m m' : Machine}

theorem Machine.Beside.counted (h : Machine.Beside small large m m') :
    Machine.Beside small large m.counted m'.counted := by
  obtain ⟨hlimits, rfl⟩ := h
  unfold Machine.counted
  by_cases hcount : m.steps < maxCount
  · rw [if_pos hcount, if_pos (show (m.relimit large).steps < maxCount from hcount)]
    exact ⟨hlimits, rfl⟩
  · rw [if_neg hcount, if_neg (show ¬(m.relimit large).steps < maxCount from hcount)]
    exact ⟨hlimits, rfl⟩

/-- A primitive that charges nothing does the same on both machines. -/
theorem Machine.Beside.blind {α : Type} (h : Machine.Beside small large m m') (p : Primitive α)
    (hp : p.charges = false) :
    Progress.Follows (Machine.Beside small large) RuntimeError.IsBudget (.finished (p.run m))
      (.finished (p.run m')) := by
  obtain ⟨hlimits, rfl⟩ := h
  have hrun : p.run (m.relimit large) = Ending.rebudget m.steps large (p.run m) :=
    p.run_blind hp m m.steps large
  have hbudget := p.run_budget hp m
  rw [hrun]
  cases hm : p.run m with
  | ok a m' =>
    rw [hm] at hbudget
    obtain ⟨hsteps, hkept⟩ := hbudget
    refine .ok a ⟨hkept.trans hlimits, ?_⟩
    rw [← hsteps]
    rfl
  | error e m' =>
    rw [hm] at hbudget
    obtain ⟨hsteps, hkept⟩ := hbudget
    refine .error e ⟨hkept.trans hlimits, ?_⟩
    rw [← hsteps]
    rfl

/-- Counting a step writes nothing. -/
theorem Machine.Beside.wroteFirst (h : Machine.Beside small large m m') {place : Place}
    {m'' : Machine} (hchanges : Changes place m' m'') : m.counted.WroteFirst m'' := by
  have hsame : m'.output = m.counted.output := by
    rw [h.2, m.counted_output]
    rfl
  exact (Machine.WroteFirst.of_eq hsame).trans (.changes hchanges)

section Charges
variable (hbelow : small.Below large) (h : Machine.Beside small large m m')
include hbelow h

/-- Where the first charge is not the end of its run, the second one is within its limits too. -/
theorem Machine.Beside.chargeTurn (line : Nat) :
    Progress.Follows (Machine.Beside small large) RuntimeError.IsBudget
      (.finished (Run.chargeTurn line m)) (.finished (Run.chargeTurn line m')) := by
  have hwrote := h.wroteFirst (chargeTurn_changes .statement line m')
  obtain ⟨hlimits, hsame⟩ := h.counted
  have hsteps := hbelow.steps
  rw [chargeTurn_eq line m]
  split
  · exact .cut rfl hwrote
  · rename_i hunder
    rw [hlimits] at hunder
    have hunder' : ¬m'.counted.limits.maxSteps < m'.counted.steps := by
      rw [hsame]
      simp only [Machine.relimit]
      omega
    rw [chargeTurn_eq, if_neg hunder', checkTime_noTime hbelow.noTime hlimits,
      checkTime_noTime hbelow.noTime' (by rw [hsame]; rfl)]
    exact .ok () ⟨hlimits, hsame⟩

theorem Machine.Beside.chargeCall (name : String) (line : Nat) :
    Progress.Follows (Machine.Beside small large) RuntimeError.IsBudget
      (.finished (Run.chargeCall name line m)) (.finished (Run.chargeCall name line m')) := by
  have hwrote := h.wroteFirst (chargeCall_changes .statement name line m')
  obtain ⟨hlimits, hsame⟩ := h.counted
  have hsteps := hbelow.steps
  have hdepth := hbelow.depth
  rw [chargeCall_eq name line m]
  split
  · exact .cut rfl hwrote
  · split
    · exact .cut rfl hwrote
    · rename_i hunder hroom
      rw [hlimits] at hunder hroom
      have hunder' : ¬m'.counted.limits.maxSteps < m'.counted.steps := by
        rw [hsame]
        simp only [Machine.relimit]
        omega
      have hroom' : ¬m'.counted.limits.maxDepth ≤ m'.counted.frames.length := by
        rw [hsame]
        simp only [Machine.relimit]
        omega
      rw [chargeCall_eq, if_neg hunder', if_neg hroom', checkTime_noTime hbelow.noTime hlimits,
        checkTime_noTime hbelow.noTime' (by rw [hsame]; rfl)]
      exact .ok () ⟨hlimits, hsame⟩

theorem Machine.Beside.primitive {α : Type} (p : Primitive α) :
    Progress.Follows (Machine.Beside small large) RuntimeError.IsBudget (.finished (p.run m))
      (.finished (p.run m')) := by
  cases hp : p.charges with
  | false => exact h.blind p hp
  | true =>
    cases p with
    | chargeTurn line => exact h.chargeTurn hbelow line
    | chargeCall name line => exact h.chargeCall hbelow name line
    | _ => cases hp

end Charges
end Beside

/-- Two runs with different limits. The first one is cut short where its budget is used up. -/
def sideBySide {small large : Limits} (hbelow : small.Below large) : Lockstep where
  related := Machine.Beside small large
  cut := RuntimeError.IsBudget
  primitive p _ _ h := h.primitive hbelow p
  push frame h := ⟨h.1, by rw [h.2]; rfl⟩
  pop h := ⟨h.1, by rw [h.2]; rfl⟩

/-- Larger limits change nothing about a run that stays within the smaller ones: it ends in the same
way, on the same machine but for the limits. A run that exceeds the smaller ones has written the
beginning of what it writes within the larger ones. -/
theorem Program.run_larger_limits (program : Program) (inputs : List String) (small large : Limits)
    (clock : Clock) (hsteps : small.maxSteps ≤ large.maxSteps) (hcount : large.maxSteps < maxCount)
    (hdepth : small.maxDepth ≤ large.maxDepth) (htime : small.timeout = none)
    (htime' : large.timeout = none) :
    match program.run (.initial inputs small clock) with
    | .ok _ m => program.run (.initial inputs large clock) = .ok () { m with limits := large }
    | .error e m =>
      if e.cause.isBudget then
        ∃ text,
          (Ending.machine (program.run (.initial inputs large clock))).output = m.output ++ text
      else program.run (.initial inputs large clock) = .error e { m with limits := large } := by
  have hbelow : small.Below large := ⟨hsteps, hdepth, htime, htime'⟩
  have hstart :
      Machine.Beside small large (.initial inputs small clock) (.initial inputs large clock) :=
    ⟨rfl, rfl⟩
  have hends (limits : Limits) (hlimit : limits.maxSteps < maxCount) :
      Ends (.plan program.plan) (.initial inputs limits clock)
        (program.run (.initial inputs limits clock)) := program.run_ends hlimit
  have hfollows := (sideBySide hbelow).of_ends hstart
    (hends small (Nat.lt_of_le_of_lt hsteps hcount)) (hends large hcount)
  generalize program.run (.initial inputs small clock) = ending at hfollows
  generalize program.run (.initial inputs large clock) = ending' at hfollows
  cases hfollows with
  | ok _ hbeside =>
    obtain ⟨-, rfl⟩ := hbeside
    rfl
  -- both end in this error, and if it is about a budget, the second writes nothing more
  | error e hbeside =>
    obtain ⟨-, rfl⟩ := hbeside
    dsimp only
    split
    · exact ⟨"", by rw [String.append_empty]; rfl⟩
    · rfl
  | @cut e m _ hcut hwrote =>
    dsimp only
    rw [if_pos (show e.cause.isBudget = true from hcut)]
    exact hwrote

/-- A loop that writes a line in each of its three turns, within one step, ten steps and twenty. -/
theorem Program.run_larger_limits_loop :
    let body : List Statement := [.write [.literal (.string "a") 2] 2]
    let program : Program := ⟨none, [], [⟨["i"], .entier, 1⟩], [],
      [.forLoop "i" (.literal (.integer 1) 1) (.literal (.integer 3) 1) none body 1]⟩
    (Ending.machine (program.run (.initial [] ⟨1, 1, none⟩ .steady))).output = "a\na\n" ∧
    (∃ text, (Ending.machine (program.run (.initial [] ⟨10, 1, none⟩ .steady))).output =
      "a\na\n" ++ text) ∧
    program.run (.initial [] ⟨20, 1, none⟩ .steady) =
      .ok () { Ending.machine (program.run (.initial [] ⟨10, 1, none⟩ .steady)) with
        limits := ⟨20, 1, none⟩ } := by
  intro body program
  have hcut := program.run_larger_limits [] ⟨1, 1, none⟩ ⟨10, 1, none⟩ .steady (by decide)
    (by decide) (by decide) rfl rfl
  have hsame := program.run_larger_limits [] ⟨10, 1, none⟩ ⟨20, 1, none⟩ .steady (by decide)
    (by decide) (by decide) rfl rfl
  exact ⟨rfl, hcut, hsame⟩

end Pseudocode
