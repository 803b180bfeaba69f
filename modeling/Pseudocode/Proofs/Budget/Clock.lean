import Pseudocode.Proofs.Budget.Charge
import Pseudocode.Proofs.Plan.Lockstep
import Pseudocode.Proofs.Termination

/-! # Clocks that are not looked at

The clock is only compared with the time that a run was given. A run whose time is not limited does
the same on every clock, so what is proved of two such runs with one clock holds of them with two.
It is enough to know this of the primitives: two runs that go side by side keep it, and neither of
them is ever cut short.

* `Machine.reclock`: the machine with another clock.
* `Primitive.run_reclock`: primitives without a limit of time.
* `Program.run_untimed`: whole programs. -/

namespace Pseudocode
set_option autoImplicit false
open Run

/-- The same machine with another clock. -/
def Machine.reclock (m : Machine) (clock : Clock) : Machine := { m with clock }

section Reclock
variable (clock : Clock) {m : Machine} (htime : m.limits.timeout = none)

theorem Machine.spares_reclock : Machine.Spares (·.reclock clock) where
  withGlobals _ _ := rfl
  withFrames _ _ := rfl
  withRoutines _ _ := rfl
  withOutput _ _ := rfl

theorem Machine.sparesCount_reclock : Machine.SparesCount (·.reclock clock) where
  withSteps _ _ := rfl
  limits _ := rfl

theorem takeInput_reclock (name : String) (line : Nat) :
    takeInput name line (m.reclock clock) =
      Ending.map (·.reclock clock) (takeInput name line m) := by
  have hinputs : (m.reclock clock).inputs = m.inputs := rfl
  unfold takeInput
  rw [get_bind, get_bind, hinputs]
  cases m.inputs <;> rfl

include htime

theorem checkTime_reclock (line : Nat) :
    checkTime line (m.counted.reclock clock) =
      Ending.map (·.reclock clock) (checkTime line m.counted) := by
  have hreclock : (m.counted.reclock clock).limits = m.limits := m.counted_limits
  rw [checkTime_noTime htime m.counted_limits, checkTime_noTime htime hreclock]
  rfl

/-- Where the time is not limited, a primitive does the same on any clock. -/
theorem Primitive.run_reclock {α : Type} (p : Primitive α) :
    p.run (m.reclock clock) = Ending.map (·.reclock clock) (p.run m) := by
  have hspares := Machine.spares_reclock clock
  have hcount := Machine.sparesCount_reclock clock
  cases hdraws : p.draws with
  | false => exact p.run_commutes hspares hdraws m
  | true =>
    cases p with
    | chargeTurn line => exact commutes_chargeTurn_at hcount (checkTime_reclock clock htime line)
    | chargeCall name line =>
      exact commutes_chargeCall_at hcount (checkTime_reclock clock htime line) hspares name
    | readInto name line => exact commutes_readInto_at hspares (takeInput_reclock clock name line)
    | _ => cases hdraws

end Reclock

/-- Two machines whose time is not limited, the same but for their clocks. -/
def Machine.OnAnyClock (clock : Clock) (m m' : Machine) : Prop :=
  m.limits.timeout = none ∧ m' = m.reclock clock

/-- Two runs with different clocks, none of which limits the time. -/
def untimedAlongside (clock : Clock) : Lockstep where
  related := Machine.OnAnyClock clock
  cut _ := False
  primitive {_} p m m' h := by
    obtain ⟨htime, rfl⟩ := h
    have hlimits : (Ending.machine (p.run m)).limits = m.limits :=
      ((Plan.prim p).denote_accounts 0 m).limits
    rw [p.run_reclock clock htime]
    cases hm : p.run m with
    | ok a after =>
      rw [hm] at hlimits
      exact .ok a ⟨(congrArg Limits.timeout hlimits).trans htime, rfl⟩
    | error e after =>
      rw [hm] at hlimits
      exact .error e ⟨(congrArg Limits.timeout hlimits).trans htime, rfl⟩
  push frame h := ⟨h.1, by rw [h.2]; rfl⟩
  pop h := ⟨h.1, by rw [h.2]; rfl⟩

/-- A run whose time is not limited does the same on any clock. -/
theorem Program.run_untimed (program : Program) (inputs : List String) {limits : Limits}
    (clock clock' : Clock) (hcount : limits.maxSteps < maxCount) (htime : limits.timeout = none) :
    program.run (.initial inputs limits clock') =
      Ending.map (·.reclock clock') (program.run (.initial inputs limits clock)) := by
  have hstart : Machine.OnAnyClock clock' (.initial inputs limits clock)
      (.initial inputs limits clock') := ⟨htime, rfl⟩
  have hends (clock : Clock) : Ends (.plan program.plan) (.initial inputs limits clock)
      (program.run (.initial inputs limits clock)) := program.run_ends hcount
  have hfollows := (untimedAlongside clock').of_ends hstart (hends clock) (hends clock')
  generalize program.run (.initial inputs limits clock) = ending at hfollows
  generalize program.run (.initial inputs limits clock') = ending' at hfollows
  cases hfollows with
  | ok _ hrelated =>
    obtain ⟨-, rfl⟩ := hrelated
    rfl
  | error e hrelated =>
    obtain ⟨-, rfl⟩ := hrelated
    rfl
  | cut hcut => exact hcut.elim

end Pseudocode
