import Mathlib.Logic.Relation
import Pseudocode.Proofs.Plan
import Pseudocode.Proofs.Run
import Pseudocode.Proofs.Scope

/-! # What the elementary computations do to a machine

`Change place m m'` lists once and for all how a machine can change at a place of a program: a step
is counted, a value of the declared type is stored in a variable, an input is taken, a text is
written, a routine becomes known, a name is bound. `Primitive.run_changes` says that a primitive,
whether it succeeds or fails, only makes such changes. What a change keeps is therefore kept by
every primitive, and from there on by every plan. -/

namespace Pseudocode
set_option autoImplicit false
open Run

/-! ## Changes -/

/-- The ways in which a machine changes at a place of a program. -/
inductive Change : Place → Machine → Machine → Prop where
  | count {place : Place} {m : Machine} :
      m.steps < maxCount → Change place m { m with steps := m.steps + 1 }
  | store {m : Machine} {name : String} {binding : Binding} {value : Value} :
      m.scope.get? name = some binding → binding.constant = false → value.ty? = some binding.ty →
      Change .statement m (m.set name value)
  | take {m : Machine} {raw : String} {rest : List String} :
      m.inputs = raw :: rest → Change .statement m { m with inputs := rest }
  | write {m : Machine} (text : String) :
      Change .statement m { m with output := m.output ++ text }
  | register {m : Machine} {routine : Routine} :
      m.routine? routine.name = none →
      Change .program m { m with routines := m.routines ++ [(Text.nameKey routine.name, routine)] }
  | bind {m : Machine} {binding : Binding} {line : Nat} {globals : Environment} :
      m.globals.insert binding line = .ok globals → binding.Sound →
      Change .program m { m with globals }

/-- Changes one after the other. -/
abbrev Changes (place : Place) : Machine → Machine → Prop := Relation.ReflTransGen (Change place)

/-! ## Looking up and storing -/

theorem Machine.resolve?_variable {m : Machine} {name : String} {binding : Binding}
    (h : m.resolve? name = some binding) (hc : binding.constant = false) :
    m.scope.get? name = some binding := by
  unfold Machine.resolve? at h
  split at h
  · rename_i found
    rw [found, h]
  · split at h
    · cases h
    · -- What a call sees of the main program is constant.
      have hconstant : binding.constant = true := by
        obtain ⟨_, hfilter⟩ := Option.filter_eq_some_iff.1 h
        exact hfilter
      rw [hc] at hconstant
      cases hconstant

theorem resolveVariable_cases (name : String) (line : Nat) (m : Machine) :
    (∃ e, resolveVariable name line m = .error e m) ∨
      ∃ binding, resolveVariable name line m = .ok binding m ∧
        m.scope.get? name = some binding ∧ binding.constant = false := by
  cases hresolve : m.resolve? name with
  | none =>
    have hfail : resolve name line m = .error ⟨.undeclaredVariable name, line⟩ m := by
      unfold resolve
      rw [get_bind, hresolve]
      rfl
    exact .inl ⟨_, bind_error hfail⟩
  | some binding =>
    have hok : resolve name line m = .ok binding m := by
      unfold resolve
      rw [get_bind, hresolve]
      rfl
    unfold resolveVariable
    rw [bind_ok hok]
    cases hc : binding.constant with
    | true => exact .inl ⟨_, rfl⟩
    | false => exact .inr ⟨binding, rfl, Machine.resolve?_variable hresolve hc, hc⟩

theorem assign_cases (name : String) (value : Value) (line : Nat) (m : Machine) :
    (∃ e, assign name value line m = .error e m) ∨
      ∃ binding converted, assign name value line m = .ok () (m.set name converted) ∧
        m.scope.get? name = some binding ∧ binding.constant = false ∧
        converted.ty? = some binding.ty := by
  unfold assign
  rcases resolveVariable_cases name line m with ⟨e, he⟩ | ⟨binding, hok, hget, hc⟩
  · exact .inl ⟨e, bind_error he⟩
  · rw [bind_ok hok]
    cases hcoerce : value.coerce binding.ty (.var name) line with
    | error e => exact .inl ⟨e, rfl⟩
    | ok converted => exact .inr ⟨binding, converted, rfl, hget, hc, Value.coerce_ty hcoerce⟩

theorem takeInput_cases (name : String) (line : Nat) (m : Machine) :
    (∃ e, takeInput name line m = .error e m) ∨
      ∃ raw rest, m.inputs = raw :: rest ∧
        takeInput name line m = .ok raw { m with inputs := rest } := by
  unfold takeInput
  rw [get_bind]
  cases m.inputs with
  | nil => exact .inl ⟨_, rfl⟩
  | cons raw rest => exact .inr ⟨raw, rest, rfl, rfl⟩

theorem load_machine (name : String) (line : Nat) (m : Machine) :
    Ending.machine (load name line m) = m := by
  unfold load resolve
  rw [bind_assoc, get_bind]
  cases m.resolve? name with
  | none => rfl
  | some binding =>
    rw [pure_bind]
    split <;> rfl

/-! ## Budgets -/

theorem countStep_changes (place : Place) (m : Machine) :
    ∃ m', countStep m = .ok () m' ∧ Changes place m m' := by
  refine ⟨if m.steps < maxCount then { m with steps := m.steps + 1 } else m, rfl, ?_⟩
  split
  · rename_i hlt
    exact .single (.count hlt)
  · exact .refl

theorem checkTime_machine (line : Nat) (m : Machine) :
    Ending.machine (checkTime line m) = m := by
  unfold checkTime
  rw [get_bind]
  cases m.overdue? <;> rfl

theorem chargeTurn_changes (place : Place) (line : Nat) (m : Machine) :
    Changes place m (Ending.machine (chargeTurn line m)) := by
  obtain ⟨m', hcount, hchanges⟩ := countStep_changes place m
  unfold chargeTurn
  rw [bind_ok hcount, get_bind]
  split
  · exact hchanges
  · rw [checkTime_machine]
    exact hchanges

theorem chargeCall_changes (place : Place) (name : String) (line : Nat) (m : Machine) :
    Changes place m (Ending.machine (chargeCall name line m)) := by
  obtain ⟨m', hcount, hchanges⟩ := countStep_changes place m
  unfold chargeCall
  rw [bind_ok hcount, get_bind]
  split
  · exact hchanges
  · split
    · exact hchanges
    · rw [checkTime_machine]
      exact hchanges

/-! ## Primitives -/

theorem assign_changes (name : String) (value : Value) (line : Nat) (m : Machine) :
    Changes .statement m (Ending.machine (assign name value line m)) := by
  rcases assign_cases name value line m with ⟨e, he⟩ | ⟨binding, converted, hok, hget, hc, hty⟩
  · rw [he]
    exact .refl
  · rw [hok]
    exact .single (.store hget hc hty)

theorem readInto_changes (name : String) (line : Nat) (m : Machine) :
    Changes .statement m (Ending.machine (readInto name line m)) := by
  unfold readInto
  rcases resolveVariable_cases name line m with ⟨e, he⟩ | ⟨binding, hok, -, -⟩
  · rw [bind_error he]
    exact .refl
  rw [bind_ok hok]
  rcases takeInput_cases name line m with ⟨e, he⟩ | ⟨raw, rest, hinputs, hok⟩
  · rw [bind_error he]
    exact .refl
  rw [bind_ok hok]
  have htake : Changes .statement m { m with inputs := rest } := .single (.take hinputs)
  cases Value.ofInput raw binding.ty name line with
  | error e => exact htake
  | ok value => exact htake.trans (assign_changes name value line _)

theorem checkCounter_machine (name : String) (line : Nat) (m : Machine) :
    Ending.machine (checkCounter name line m) = m := by
  unfold checkCounter
  rcases resolveVariable_cases name line m with ⟨e, he⟩ | ⟨binding, hok, -, -⟩
  · rw [bind_error he]
    rfl
  · rw [bind_ok hok]
    split <;> rfl

theorem register_changes (routine : Routine) (m : Machine) :
    Changes .program m (Ending.machine (Program.registerRoutines [routine] m)) := by
  unfold Program.registerRoutines
  rw [get_bind]
  cases hfound : m.routine? routine.name with
  | some found => exact .refl
  | none => exact .single (.register hfound)

theorem changeGlobals_cases (change : Environment → Except RuntimeError Environment) (m : Machine) :
    (∃ e, Program.changeGlobals change m = .error e m) ∨
      ∃ globals, change m.globals = .ok globals ∧
        Program.changeGlobals change m = .ok () { m with globals } := by
  unfold Program.changeGlobals
  rw [get_bind]
  cases change m.globals with
  | error e => exact .inl ⟨e, rfl⟩
  | ok globals => exact .inr ⟨globals, rfl, rfl⟩

theorem insert_changes {binding : Binding} (sound : binding.Sound) (line : Nat) (m : Machine) :
    Changes .program m
      (Ending.machine (Program.changeGlobals (·.insert binding line) m)) := by
  rcases changeGlobals_cases (·.insert binding line) m with ⟨e, he⟩ | ⟨globals, hinsert, hok⟩
  · rw [he]
    exact .refl
  · rw [hok]
    exact .single (.bind hinsert sound)

theorem bindConstant_changes (constant : ConstDecl) (value : Value) (m : Machine) :
    Changes .program m (Ending.machine (Program.bindConstant constant value m)) := by
  unfold Program.bindConstant
  cases constant.ty?.or value.ty? with
  | none => exact .refl
  | some ty =>
    dsimp only
    cases hcoerce : value.coerce ty (.const constant.name) constant.line with
    | error e => exact .refl
    | ok converted =>
      have sound : Binding.Sound ⟨constant.name, ty, converted, true⟩ :=
        Binding.sound_of_ty (Value.coerce_ty hcoerce)
      exact insert_changes sound constant.line m

/-- A primitive only makes the changes of its place, whether it succeeds or fails. -/
theorem Primitive.run_changes {α : Type} (primitive : Primitive α) (m : Machine) :
    Changes primitive.place m (Ending.machine (primitive.run m)) := by
  cases primitive with
  | give result => cases result <;> exact .refl
  | load name line =>
    rw [Primitive.run, load_machine]
  | findRoutine name => exact .refl
  | chargeCall name line => exact chargeCall_changes _ name line m
  | assign name value line => exact assign_changes name value line m
  | checkCounter name line =>
    rw [Primitive.run, checkCounter_machine]
  | readInto name line => exact readInto_changes name line m
  | writeLine text =>
    have hwrite : { m with output := m.output ++ text ++ "\n" } =
        { m with output := m.output ++ (text ++ "\n") } := by
      rw [String.append_assoc]
    change Changes .statement m { m with output := m.output ++ text ++ "\n" }
    rw [hwrite]
    exact .single (.write _)
  | chargeTurn line => exact chargeTurn_changes _ line m
  | register routine => exact register_changes routine m
  | define constant value => exact bindConstant_changes constant value m
  | declare name ty line => exact insert_changes (Binding.sound_declared name ty) line m

end Pseudocode
