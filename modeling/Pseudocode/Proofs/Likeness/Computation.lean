import Pseudocode.Proofs.Content

/-! # Computations that are alike

Two computations are alike if, started on related machines, they end on related machines, with the
same value or with errors that stand in a given relation to each other. This carries over from the
parts of a computation to the whole; each rule takes the parts of both in turn.

* `Run.Alike`: two computations are alike.
* `Run.Alike.bind` and the theorems after it: sequences, choices, variables and loops. -/

namespace Pseudocode
set_option autoImplicit false
open Run

section
variable {α : Type} (related : Machine → Machine → Prop)
  (failed : RuntimeError → RuntimeError → Machine → Prop)

/-- Two ends with the same value, or with errors that correspond, on the machine of the first. -/
inductive Ending.Alike : Ending α → Ending α → Prop where
  | ok (a : α) {m m' : Machine} : related m m' → Ending.Alike (.ok a m) (.ok a m')
  | error {e e' : RuntimeError} {m m' : Machine} :
      failed e e' m → related m m' → Ending.Alike (.error e m) (.error e' m')

def Run.Alike (c c' : Run α) : Prop :=
  ∀ m m' : Machine, related m m' → Ending.Alike related failed (c m) (c' m')

end

namespace Run.Alike
variable {α β : Type} {related : Machine → Machine → Prop}
  {failed : RuntimeError → RuntimeError → Machine → Prop}

/-! ## Sequences and choices -/

theorem pure (a : α) : Alike related failed (pure a : Run α) (Pure.pure a) :=
  fun _ _ h => .ok a h

/-- A sequence on two machines: the second parts matter where the first ones lead. -/
theorem bind_at {c c' : Run β} {f f' : β → Run α} {m m' : Machine}
    (hc : Ending.Alike related failed (c m) (c' m'))
    (hf : ∀ b m₁ m₁', c m = .ok b m₁ → related m₁ m₁' →
      Ending.Alike related failed (f b m₁) (f' b m₁')) :
    Ending.Alike related failed ((c >>= f) m) ((c' >>= f') m') := by
  cases hm : c m with
  | ok b m₁ =>
    cases hm' : c' m' with
    | error e m₁' =>
      rw [hm, hm'] at hc
      cases hc
    | ok b' m₁' =>
      rw [hm, hm'] at hc
      rw [bind_ok hm, bind_ok hm']
      cases hc with
      | ok _ hrelated => exact hf b m₁ m₁' hm hrelated
  | error e m₁ =>
    cases hm' : c' m' with
    | ok b' m₁' =>
      rw [hm, hm'] at hc
      cases hc
    | error e' m₁' =>
      rw [hm, hm'] at hc
      rw [bind_error hm, bind_error hm']
      cases hc with
      | error hfailed hrelated => exact .error hfailed hrelated

theorem bind {c c' : Run β} {f f' : β → Run α} (hc : Alike related failed c c')
    (hf : ∀ b, Alike related failed (f b) (f' b)) : Alike related failed (c >>= f) (c' >>= f') :=
  fun m m' h => bind_at (hc m m' h) fun b m₁ m₁' _ => hf b m₁ m₁'

theorem ite {c : Prop} [Decidable c] {first first' other other' : Run α}
    (hfirst : Alike related failed first first') (hother : Alike related failed other other') :
    Alike related failed (if c then first else other) (if c then first' else other') := by
  split
  · exact hfirst
  · exact hother

theorem andThen {first first' next next' : Run Flow} (hfirst : Alike related failed first first')
    (hnext : Alike related failed next next') :
    Alike related failed (Run.andThen first next) (Run.andThen first' next') := by
  refine hfirst.bind fun flow => ?_
  cases flow with
  | normal => exact hnext
  | returned value => exact .pure _

/-! ## Variables

A name is loaded or assigned to alike on machines that know the same of it. -/

section Variables
variable {name name' : String} {line line' : Nat}
  (hcontent : ∀ {m m' : Machine}, related m m' → m.content? name = m'.content? name')
  (hundeclared : ∀ {m m' : Machine}, related m m' →
    failed ⟨.undeclaredVariable name, line⟩ ⟨.undeclaredVariable name', line'⟩ m)
include hcontent hundeclared

theorem load
    (huninitialized : ∀ {m m' : Machine}, related m m' →
      failed ⟨.uninitializedVariable name, line⟩ ⟨.uninitializedVariable name', line'⟩ m) :
    Alike related failed (Run.load name line) (Run.load name' line') := by
  intro m m' h
  rw [load_eq, load_eq, get_bind, get_bind, hcontent h]
  cases m'.content? name' with
  | none => exact .error (hundeclared h) h
  | some content =>
    dsimp only
    split
    · exact .error (huninitialized h) h
    · exact .ok content.2.1 h

theorem target
    (hconstant : ∀ {m m' : Machine}, related m m' →
      failed ⟨.constantAssignment name, line⟩ ⟨.constantAssignment name', line'⟩ m) :
    Alike related failed (Run.target name line) (Run.target name' line') := by
  intro m m' h
  rw [target_eq, target_eq, get_bind, get_bind, hcontent h]
  cases m'.content? name' with
  | none => exact .error (hundeclared h) h
  | some content =>
    dsimp only
    split
    · exact .error (hconstant h) h
    · exact .ok content.1 h

end Variables

/-! ## Loops -/

section Loops
variable {condition condition' : Run Bool} {body body' : Run Flow} {line line' : Nat}
  (hcharge : Alike related failed (chargeTurn line) (chargeTurn line'))
  (hstop : Alike related failed
    (do Run.fail (.infiniteLoop (← get).limits.maxSteps) line : Run Flow)
    (do Run.fail (.infiniteLoop (← get).limits.maxSteps) line'))
  (hbody : Alike related failed body body')

include hcharge hstop hbody in
theorem whileTurns (hcondition : Alike related failed condition condition') (turns : Nat) :
    Alike related failed (Run.whileTurns condition body line turns)
      (Run.whileTurns condition' body' line' turns) := by
  induction turns with
  | zero => exact hstop
  | succ turns ih =>
    have hagain := hbody.andThen (hcharge.bind fun _ => ih)
    exact hcondition.bind fun holds => .ite hagain (.pure _)

include hcharge hstop hbody in
theorem repeatTurns (hcondition : Alike related failed condition condition') (turns : Nat) :
    Alike related failed (Run.repeatTurns body condition line turns)
      (Run.repeatTurns body' condition' line' turns) := by
  induction turns with
  | zero => exact hstop
  | succ turns ih =>
    have hagain := hcharge.bind fun _ => ih
    exact hbody.andThen (hcondition.bind fun holds => .ite (.pure _) hagain)

include hcharge hbody in
theorem forTurns {name name' : String}
    (hassign : ∀ value, Alike related failed (assign name value line) (assign name' value line'))
    (last step value : Entier) :
    Alike related failed (Run.forTurns name last step body line value)
      (Run.forTurns name' last step body' line' value) := by
  induction value using Run.forTurns.induct last step with
  | case1 value hrange ih =>
    have hturn := (hassign (.integer value)).bind fun _ => hbody
    rw [Run.forTurns, dif_pos hrange, Run.forTurns, dif_pos hrange]
    refine hturn.andThen (hcharge.bind fun _ => ?_)
    split
    · exact ih _ ‹_›
    · exact .pure _
  | case2 value hrange =>
    rw [Run.forTurns, dif_neg hrange, Run.forTurns, dif_neg hrange]
    exact .pure _

end Loops

/-! ## Scopes -/

theorem inFrame {inside : Machine → Machine → Prop} {frame frame' : Environment} {c c' : Run α}
    (hc : Alike inside failed c c')
    (hpush : ∀ {m m' : Machine}, related m m' → inside (m.push frame) (m'.push frame'))
    (hpop : ∀ {m m' : Machine}, inside m m' → related m.pop m'.pop)
    (hfailed : ∀ {e e' : RuntimeError} {m : Machine}, failed e e' m → failed e e' m.pop) :
    Alike related failed (Run.inFrame frame c) (Run.inFrame frame' c') := by
  intro m m' h
  have hinside := hc _ _ (hpush h)
  rw [inFrame_apply, inFrame_apply]
  generalize c (m.push frame) = ending at hinside
  generalize c' (m'.push frame') = ending' at hinside
  cases hinside with
  | ok a hrelated => exact .ok a (hpop hrelated)
  | error herror hrelated => exact .error (hfailed herror) (hpop hrelated)

end Run.Alike
end Pseudocode
