import Pseudocode.Proofs.Budget.Charge
import Pseudocode.Proofs.Likeness.Computation
import Pseudocode.Proofs.Likeness.Scope

/-! # Elementary computations that are alike

A `Likeness` says how two runs are compared: which lines and which routines correspond to each
other, and what is to be said of the errors of the first run. The elementary computations find the
same under names that differ in letter case, so they are alike: they fail together, with errors of
one kind.

* `Likeness`: how two runs are compared.
* `Likeness.Runs`: two computations are alike in this sense. -/

namespace Pseudocode
set_option autoImplicit false
open Run

/-- How two runs are compared. What is said of an error of the first run has to hold of all errors
on a line that corresponds to some line, and of those about routines that returned nothing. -/
structure Likeness where
  line : Nat → Nat → Prop
  known : Routine → Routine → Prop
  blame : RuntimeError → Machine → Prop
  alike {routine routine' : Routine} : known routine routine' → Routine.Alike line routine routine'
  ordinary {cause : RuntimeCause} {l l' : Nat} (m : Machine) :
    cause.isReturn = false → line l l' → blame ⟨cause, l⟩ m
  /-- The call of a procedure stands where a value is needed. -/
  noValue {routine routine' : Routine} {name : String} {l l' : Nat} (m : Machine) :
    known routine routine' → routine.kind = .procedure → SameName routine.name name → line l l' →
    blame ⟨.noReturnValue name, l⟩ m
  /-- The body of a function ended without a value. -/
  noReturn {routine routine' : Routine} {depth : Nat} {inner ended : Machine} {flow : Flow} :
    known routine routine' → routine.kind = .function →
    execBlock (invoke depth) routine.body inner = .ok flow ended →
    (∀ value, flow ≠ .returned (some value)) →
    blame ⟨.missingReturn routine.name, routine.line⟩ ended.pop
  pop {e : RuntimeError} {m : Machine} : blame e m → blame e m.pop

namespace Likeness
variable (pair : Likeness) {α β γ : Type}

abbrev Related (m m' : Machine) : Prop := Machine.Alike pair.known m m'

/-- Errors of one kind, and what is said of the first one. -/
def Failed (e e' : RuntimeError) (m : Machine) : Prop :=
  e.cause.kind = e'.cause.kind ∧ pair.blame e m

abbrev Runs (c c' : Run α) : Prop := Run.Alike pair.Related pair.Failed c c'

variable {pair}

/-! ## Errors and results -/

theorem fails {m m' : Machine} (h : pair.Related m m') {cause cause' : RuntimeCause} {l l' : Nat}
    (hkind : cause.kind = cause'.kind) (hcause : cause.isReturn = false)
    (hline : pair.line l l') :
    Ending.Alike pair.Related pair.Failed (Run.fail cause l m : Ending α)
      (Run.fail cause' l' m') :=
  .error ⟨hkind, pair.ordinary m hcause hline⟩ h

theorem fail {cause cause' : RuntimeCause} {l l' : Nat} (hkind : cause.kind = cause'.kind)
    (hcause : cause.isReturn = false) (hline : pair.line l l') :
    pair.Runs (Run.fail cause l : Run α) (Run.fail cause' l') :=
  fun _ _ h => fails h hkind hcause hline

theorem lift {result result' : Except RuntimeError α} (h : Agree pair.line Eq result result') :
    pair.Runs (Run.lift result) (Run.lift result') := by
  cases h with
  | ok h =>
    obtain rfl := h
    exact .pure _
  | error hkind hcause hline => exact fail hkind hcause hline

/-- A result on which the rest depends, but only up to what the two results have in common. -/
theorem lift_bind {same : β → γ → Prop} {result : Except RuntimeError β}
    {result' : Except RuntimeError γ} {next : β → Run α} {next' : γ → Run α}
    (h : Agree pair.line same result result')
    (hnext : ∀ b b', same b b' → pair.Runs (next b) (next' b')) :
    pair.Runs (Run.lift result >>= next) (Run.lift result' >>= next') := by
  cases h with
  | ok h => exact hnext _ _ h
  | error hkind hcause hline =>
    exact fun m m' hrelated => fails hrelated hkind hcause hline

/-! ## Variables -/

theorem takeInput (name name' : String) {l l' : Nat} (hline : pair.line l l') :
    pair.Runs (Run.takeInput name l) (Run.takeInput name' l') := by
  intro m m' h
  unfold Run.takeInput
  rw [get_bind, get_bind, h.inputs]
  cases m'.inputs with
  | nil => exact fails h rfl rfl hline
  | cons raw rest => exact .ok raw { h with inputs := rfl }

section Variables
variable {name name' : String} {l l' : Nat} (hname : SameName name name') (hline : pair.line l l')
include hname hline

theorem load : pair.Runs (Run.load name l) (Run.load name' l') :=
  .load (fun h => h.content? hname) (fun _ => ⟨rfl, pair.ordinary _ rfl hline⟩)
    fun _ => ⟨rfl, pair.ordinary _ rfl hline⟩

theorem target : pair.Runs (Run.target name l) (Run.target name' l') :=
  .target (fun h => h.content? hname) (fun _ => ⟨rfl, pair.ordinary _ rfl hline⟩)
    fun _ => ⟨rfl, pair.ordinary _ rfl hline⟩

theorem assign (value : Value) :
    pair.Runs (Run.assign name value l) (Run.assign name' value l') := by
  rw [assign_eq, assign_eq]
  refine (target hname hline).bind fun ty => ?_
  refine (lift (value.agree_coerce ty _ _ hline)).bind fun converted => ?_
  exact fun m m' h => .ok () (h.set hname converted)

theorem readInto : pair.Runs (Run.readInto name l) (Run.readInto name' l') := by
  rw [readInto_eq, readInto_eq]
  refine (target hname hline).bind fun ty => ?_
  refine (takeInput name name' hline).bind fun raw => ?_
  exact (lift (Value.agree_ofInput raw ty name name' hline)).bind fun value =>
    assign hname hline value

theorem checkCounter : pair.Runs (Run.checkCounter name l) (Run.checkCounter name' l') := by
  rw [checkCounter_eq, checkCounter_eq]
  exact (target hname hline).bind fun ty => .ite (.pure ()) (fail rfl rfl hline)

end Variables

theorem readAll {names names' : List String} {l l' : Nat}
    (hnames : List.Forall₂ SameName names names') (hline : pair.line l l') :
    pair.Runs (Run.readAll l names) (Run.readAll l' names') := by
  induction hnames with
  | nil => exact .pure ()
  | cons hname _ ih => exact (readInto hname hline).bind fun _ => ih

theorem writeLine (text : String) : pair.Runs (Run.writeLine text) (Run.writeLine text) := by
  intro m m' h
  have houtput : m.output ++ text ++ "\n" = m'.output ++ text ++ "\n" := by
    rw [h.output]
  exact .ok () { h with output := houtput }

/-! ## Budgets -/

theorem counted {m m' : Machine} (h : pair.Related m m') :
    pair.Related m.counted m'.counted := by
  unfold Machine.counted
  rw [h.steps]
  split
  · exact { h with steps := rfl }
  · exact h

section Charges
variable {l l' : Nat} (hline : pair.line l l')
include hline

theorem checkTime : pair.Runs (Run.checkTime l) (Run.checkTime l') := by
  intro m m' h
  rw [checkTime_eq, checkTime_eq, ← h.overdue?]
  split
  · exact fails h rfl rfl hline
  · exact .ok () h

theorem chargeTurn : pair.Runs (Run.chargeTurn l) (Run.chargeTurn l') := by
  intro m m' h
  have hcounted := counted h
  rw [chargeTurn_eq, chargeTurn_eq, hcounted.limits, hcounted.steps]
  split
  · exact fails hcounted rfl rfl hline
  · exact checkTime hline _ _ hcounted

theorem chargeCall (name name' : String) :
    pair.Runs (Run.chargeCall name l) (Run.chargeCall name' l') := by
  intro m m' h
  have hcounted := counted h
  rw [chargeCall_eq, chargeCall_eq, hcounted.limits, hcounted.steps, hcounted.frames.length_eq]
  split
  · exact fails hcounted rfl rfl hline
  · split
    · exact fails hcounted rfl rfl hline
    · exact checkTime hline _ _ hcounted

/-- The turns of a loop are used up on both sides at once. -/
theorem noTurns :
    pair.Runs (do Run.fail (.infiniteLoop (← get).limits.maxSteps) l : Run α)
      (do Run.fail (.infiniteLoop (← get).limits.maxSteps) l') :=
  fun _ _ h => fails h (by rw [h.limits]) rfl hline

end Charges

theorem stepsLeft {m m' : Machine} (h : pair.Related m m') : m.stepsLeft = m'.stepsLeft := by
  unfold Machine.stepsLeft
  rw [h.limits, h.steps]

theorem depthLeft {m m' : Machine} (h : pair.Related m m') : m.depthLeft = m'.depthLeft := by
  unfold Machine.depthLeft
  rw [h.limits, h.frames.length_eq]

end Likeness
end Pseudocode
