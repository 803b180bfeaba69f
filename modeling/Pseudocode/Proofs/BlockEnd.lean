import Pseudocode.Machine.Call
import Pseudocode.Proofs.Grammar.Trees
import Pseudocode.Proofs.Run

/-! # How blocks end

A block returns only through a `RETOURNER` that it encloses, so the routine in which its statements
may stand also decides how it may end. Calls made by the block play no part in this.

* `execBlock_ends`: a block ends as the returns in it do.
* `Flow.Fits`: an end that fits a routine, or the main block.
* `execBlock_fits`, `runBlock_normal`: what may stand in a routine, or in the main block, ends like
  it. -/

namespace Pseudocode
set_option autoImplicit false
open Run

namespace Run

/-- If the computation yields a flow, then one with the property. -/
def EndsIn (good : Flow → Prop) (c : Run Flow) : Prop :=
  ∀ m flow m', c m = .ok flow m' → good flow

namespace EndsIn
variable {α : Type} {good : Flow → Prop}

/-! ## Sequences and choices -/

theorem pure {flow : Flow} (h : good flow) : EndsIn good (pure flow) := by
  rintro m _ _ ⟨⟩
  exact h

theorem fail (cause : RuntimeCause) (line : Nat) : EndsIn good (Run.fail cause line) := nofun

theorem bind {c : Run α} {f : α → Run Flow} (hf : ∀ a, EndsIn good (f a)) :
    EndsIn good (c >>= f) := by
  -- the first part yields no flow, so nothing is asked of it
  intro m flow m' h
  obtain ⟨a, m₁, -, hnext⟩ := bind_eq_ok h
  exact hf a m₁ flow m' hnext

theorem ite {c : Prop} [Decidable c] {first other : Run Flow} (hfirst : EndsIn good first)
    (hother : EndsIn good other) : EndsIn good (if c then first else other) := by
  split
  · exact hfirst
  · exact hother

/-- A return of the first part is that of the whole. -/
theorem andThen {first next : Run Flow} (hfirst : EndsIn good first) (hnext : EndsIn good next) :
    EndsIn good (Run.andThen first next) := by
  intro m flow m' h
  obtain ⟨reached, m₁, hreached, h⟩ := bind_eq_ok h
  have hgood := hfirst m reached m₁ hreached
  cases reached with
  | normal => exact hnext m₁ flow m' h
  | returned value =>
    cases h
    exact hgood

/-! ## Loops -/

section Loops
variable (hnormal : good .normal) {body : Run Flow} (hbody : EndsIn good body)
include hnormal hbody

theorem whileTurns (condition : Run Bool) (line turns : Nat) :
    EndsIn good (Run.whileTurns condition body line turns) := by
  induction turns with
  | zero => exact bind fun m => fail _ line
  | succ turns ih => exact bind fun holds => ite (hbody.andThen (bind fun _ => ih)) (pure hnormal)

theorem whileLoop (condition : Run Bool) (line : Nat) :
    EndsIn good (Run.whileLoop condition body line) :=
  bind fun _ => whileTurns hnormal hbody condition line _

theorem repeatTurns (condition : Run Bool) (line turns : Nat) :
    EndsIn good (Run.repeatTurns body condition line turns) := by
  induction turns with
  | zero => exact bind fun m => fail _ line
  | succ turns ih =>
    exact hbody.andThen (bind fun holds => ite (pure hnormal) (bind fun _ => ih))

theorem repeatLoop (condition : Run Bool) (line : Nat) :
    EndsIn good (Run.repeatLoop body condition line) :=
  bind fun _ => repeatTurns hnormal hbody condition line _

theorem forTurns (name : String) (last step : Entier) (line : Nat) (value : Entier) :
    EndsIn good (Run.forTurns name last step body line value) := by
  induction value using Run.forTurns.induct last step with
  | case1 value hrange ih =>
    rw [Run.forTurns, dif_pos hrange]
    refine andThen (bind fun _ => hbody) (bind fun _ => ?_)
    split
    · exact ih _ ‹_›
    · exact pure hnormal
  | case2 value hrange =>
    rw [Run.forTurns, dif_neg hrange]
    exact pure hnormal

theorem forLoop (name : String) (first last step : Run Value) (line : Nat) :
    EndsIn good (Run.forLoop name first last step body line) := by
  refine bind fun _ => bind fun first => bind fun last => bind fun step => ?_
  exact ite (fail _ line) (forTurns hnormal hbody name last step line first)

end Loops
end EndsIn
end Run

/-! ## Blocks -/

section Blocks
variable {good : Flow → Prop} (hnormal : good .normal) (invoke : Invoke)

/-- All returns of a block, at any depth, end with the property. -/
def ReturnsEnd (good : Flow → Prop) (invoke : Invoke) (block : List Statement) : Prop :=
  ∀ n value line, Encloses block n (.ret value line) →
    EndsIn good (exec invoke (.ret value line))

theorem ReturnsEnd.of_subset {block part : List Statement} {invoke : Invoke}
    (h : ReturnsEnd good invoke block) (hpart : part ⊆ block) : ReturnsEnd good invoke part := by
  intro n value line hreturn
  cases hreturn with
  | here hmem => exact h 0 value line (.here (hpart hmem))
  | inside houter hinner hdeep => exact h _ value line (.inside (hpart houter) hinner hdeep)

theorem ReturnsEnd.inner {statement : Statement} {inner : List Statement} {invoke : Invoke}
    (h : ReturnsEnd good invoke [statement]) (hinner : inner ∈ statement.blocks) :
    ReturnsEnd good invoke inner :=
  fun n value line hreturn => h (n + 1) value line (.inside (.head _) hinner hreturn)

include hnormal

mutual

theorem exec_ends : (statement : Statement) → ReturnsEnd good invoke [statement] →
    EndsIn good (exec invoke statement)
  | .assign .., _ => .bind fun _ => .bind fun _ => .pure hnormal
  | .read .., _ => .bind fun _ => .pure hnormal
  | .write .., _ => .bind fun _ => .bind fun _ => .pure hnormal
  | .branch _ thenBlock elseBlock _, h => by
    have hfirst := execBlock_ends thenBlock (h.inner (.head _))
    have hother := execElse_ends elseBlock fun inner hinner => h.inner (.tail _ hinner)
    exact .bind fun _ => .ite hfirst hother
  | .forLoop _ _ _ _ body _, h =>
    .forLoop hnormal (execBlock_ends body (h.inner (.head _))) _ _ _ _ _
  | .whileLoop _ body _, h => .whileLoop hnormal (execBlock_ends body (h.inner (.head _))) _ _
  | .repeatLoop body _ _, h => .repeatLoop hnormal (execBlock_ends body (h.inner (.head _))) _ _
  | .call .., _ => .bind fun _ => .pure hnormal
  | .ret value line, h => h 0 value line (.here (.head _))

theorem execBlock_ends : (block : List Statement) → ReturnsEnd good invoke block →
    EndsIn good (execBlock invoke block)
  | [], _ => .pure hnormal
  | first :: rest, h => by
    have hfirst := exec_ends first (h.of_subset (by simp))
    have hrest := execBlock_ends rest (h.of_subset (List.subset_cons_self first rest))
    exact hfirst.andThen hrest

theorem execElse_ends : (block : Option (List Statement)) →
    (∀ inner ∈ block.toList, ReturnsEnd good invoke inner) → EndsIn good (execElse invoke block)
  | none, _ => .pure hnormal
  | some block, h => execBlock_ends block (h block (.head _))

end

end Blocks

/-! ## Well-formed blocks -/

/-- In a function a return gives a value and in a procedure none; the main block never returns. -/
def Flow.Fits : Option RoutineKind → Flow → Prop
  | _, .normal | some .function, .returned (some _) | some .procedure, .returned none => True
  | _, _ => False

theorem Flow.fits_normal (routine : Option RoutineKind) : Flow.normal.Fits routine := by
  unfold Flow.Fits
  trivial

theorem exec_ret_fits {routine : Option RoutineKind} (invoke : Invoke) {value : Option Expr}
    {line : Nat} (h : (Statement.ret value line).Proper routine) :
    EndsIn (Flow.Fits routine) (exec invoke (.ret value line)) := by
  match routine, value, h with
  | some .function, some value, _ => exact .bind fun _ => .pure trivial
  | some .procedure, none, _ => exact .pure trivial

theorem execBlock_fits {routine : Option RoutineKind} (invoke : Invoke) {block : List Statement}
    (h : ProperBlock routine block) : EndsIn (Flow.Fits routine) (execBlock invoke block) :=
  execBlock_ends (Flow.fits_normal routine) invoke block fun n _ _ hreturn =>
    exec_ret_fits invoke (h n _ hreturn)

/-- The main block of a program that can be written down never returns. -/
theorem runBlock_normal {block : List Statement} (h : ProperBlock none block) {m m' : Machine}
    {flow : Flow} (hrun : runBlock block m = .ok flow m') : flow = .normal := by
  have hfits := execBlock_fits (invoke m.depthLeft) h m flow m' hrun
  cases flow with
  | normal => rfl
  | returned value => cases value <;> cases hfits

/-- The body of a function that did not return a value came to its end. -/
theorem execBlock_function_normal {block : List Statement} {invoke : Invoke}
    (h : ProperBlock (some .function) block) {m m' : Machine} {flow : Flow}
    (hrun : execBlock invoke block m = .ok flow m')
    (hvalue : ∀ value, flow ≠ .returned (some value)) : flow = .normal := by
  have hfits := execBlock_fits invoke h m flow m' hrun
  match flow, hvalue with
  | .normal, _ => rfl
  | .returned none, _ => cases hfits
  | .returned (some value), hvalue => exact absurd rfl (hvalue value)

end Pseudocode
