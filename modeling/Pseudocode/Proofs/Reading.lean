import Pseudocode.Machine.Eval
import Pseudocode.Proofs.Change

/-! # Reading inputs into variables

`LIRE` goes through its targets from the first to the last. Each target takes an input of its own and
stores it as a value of its type, until one of them refuses; what was stored before that stays stored,
and what was taken stays taken.

* `Machine.target?`: what is looked at before a value is stored under a name.
* `readInto_accepts`, `readInto_refuses`: what one target does.
* `exec_read`: the whole statement. -/

namespace Pseudocode
set_option autoImplicit false
open Run

/-! ## Several stored values -/

namespace Environment

/-- Stores values under names, one after the other. -/
def setAll (env : Environment) : List (String × Value) → Environment
  | [] => env
  | (name, value) :: rest => (env.set name value).setAll rest

/-- The value that is stored last under a name. -/
def lastStored (stores : List (String × Value)) (name : String) : Option Value :=
  (stores.reverse.find? fun store => Text.nameKey store.1 == Text.nameKey name).map Prod.snd

theorem lastStored_cons (store : String × Value) (stores : List (String × Value)) (name : String) :
    lastStored (store :: stores) name =
      (lastStored stores name).or
        (if Text.nameKey store.1 = Text.nameKey name then some store.2 else none) := by
  unfold lastStored
  rw [List.reverse_cons, List.find?_append]
  cases List.find? _ stores.reverse with
  | some found => rfl
  | none =>
    by_cases hkey : Text.nameKey store.1 = Text.nameKey name
    · simp [hkey]
    · simp [hkey]

/-- Only the names that something is stored under change, and the last value counts. -/
theorem get?_setAll (env : Environment) (stores : List (String × Value)) (name : String) :
    (env.setAll stores).get? name = (env.get? name).map fun binding =>
      { binding with value := (lastStored stores name).getD binding.value } := by
  induction stores generalizing env with
  | nil => simp [setAll, lastStored]
  | cons store stores ih =>
    rw [setAll, ih, get?_set, lastStored_cons]
    by_cases hkey : Text.nameKey name = Text.nameKey store.1
    · rw [if_pos hkey, if_pos hkey.symm, Option.map_map]
      congr 1
      funext binding
      cases lastStored stores name <;> rfl
    · rw [if_neg hkey, if_neg (Ne.symm hkey), Option.or_none]

end Environment

namespace Machine

/-- The machine with another scope in place of the one that statements run in. -/
def withScope (m : Machine) (scope : Environment) : Machine :=
  match m.frames with
  | [] => { m with globals := scope }
  | _ :: rest => { m with frames := scope :: rest }

/-- The machine after values are stored and so many inputs are taken. -/
def afterReading (m : Machine) (stores : List (String × Value)) (taken : Nat) : Machine :=
  { m.withScope (m.scope.setAll stores) with inputs := m.inputs.drop taken }

theorem afterReading_nil (m : Machine) (taken : Nat) :
    m.afterReading [] taken = { m with inputs := m.inputs.drop taken } := by
  obtain ⟨globals, frames, routines, inputs, supplied, output, steps, limits⟩ := m
  cases frames <;> rfl

/-- One store and one input after the other. -/
theorem afterReading_cons {m : Machine} {raw : String} {rest : List String}
    (h : m.inputs = raw :: rest) (name : String) (value : Value) (stores : List (String × Value))
    (taken : Nat) :
    (({ m with inputs := rest } : Machine).set name value).afterReading stores taken =
      m.afterReading ((name, value) :: stores) (taken + 1) := by
  obtain ⟨globals, frames, routines, inputs, supplied, output, steps, limits⟩ := m
  obtain rfl : inputs = raw :: rest := h
  cases frames <;> rfl

/-! ## Targets -/

/-- What is looked at before a value is stored under a name: whether it is that of a constant, and
its type. -/
def target? (m : Machine) (name : String) : Option (Bool × Ty) :=
  (m.resolve? name).map fun binding => (binding.constant, binding.ty)

theorem set_inputs (m : Machine) (name : String) (value : Value) :
    (m.set name value).inputs = m.inputs := by
  unfold set
  split <;> rfl

theorem set_supplied (m : Machine) (name : String) (value : Value) :
    (m.set name value).supplied = m.supplied := by
  unfold set
  split <;> rfl

theorem exists_of_target? {m : Machine} {name : String} {constant : Bool} {ty : Ty}
    (h : m.target? name = some (constant, ty)) :
    ∃ binding, m.resolve? name = some binding ∧ binding.constant = constant ∧ binding.ty = ty := by
  obtain ⟨binding, hresolve, hbinding⟩ := Option.map_eq_some_iff.1 h
  rw [Prod.mk.injEq] at hbinding
  exact ⟨binding, hresolve, hbinding⟩

/-- A stored value changes neither which names are visible nor what they may hold. -/
theorem target?_set (m : Machine) (name : String) (value : Value) (other : String) :
    (m.set name value).target? other = m.target? other := by
  have hscope : ((m.scope.set name value).get? other).map (fun b => (b.constant, b.ty)) =
      (m.scope.get? other).map fun b => (b.constant, b.ty) := by
    rw [Environment.get?_set]
    split
    · rw [Option.map_map]
      rfl
    · rfl
  unfold target? resolve?
  obtain ⟨globals, frames, routines, inputs, supplied, output, steps, limits⟩ := m
  cases frames with
  | nil =>
    simp only [scope, set, List.head?_nil, Option.getD_none, List.isEmpty_nil, if_true] at hscope ⊢
    cases hnew : (globals.set name value).get? other <;> cases hold : globals.get? other <;>
      simp_all
  | cons frame rest =>
    simp only [scope, set, List.head?_cons, Option.getD_some, List.isEmpty_cons] at hscope ⊢
    cases hnew : (frame.set name value).get? other <;> cases hold : frame.get? other <;>
      simp_all

/-- The input can be read into the name, as the given value. -/
def Accepts (m : Machine) (name raw : String) (value : Value) : Prop :=
  ∃ ty, m.target? name = some (false, ty) ∧ Value.read? ty raw = some value

/-- The next one of the inputs cannot be read into the name: the cause, and how many inputs were taken
before that was seen. -/
inductive Refuses (m : Machine) (inputs : List String) (name : String) :
    RuntimeCause → Nat → Prop where
  | undeclared : m.target? name = none → Refuses m inputs name (.undeclaredVariable name) 0
  | constant {ty : Ty} :
      m.target? name = some (true, ty) → Refuses m inputs name (.constantAssignment name) 0
  | exhausted {ty : Ty} :
      m.target? name = some (false, ty) → inputs = [] →
      Refuses m inputs name (.inputExhausted name m.supplied) 0
  | unreadable {ty : Ty} {raw : String} {rest : List String} :
      m.target? name = some (false, ty) → inputs = raw :: rest → Value.read? ty raw = none →
      Refuses m inputs name (.typeMismatch (.badInput raw ty name)) 1

theorem accepts_or_refuses (m : Machine) (name : String) :
    (∃ raw rest value, m.inputs = raw :: rest ∧ m.Accepts name raw value) ∨
      ∃ cause taken, m.Refuses m.inputs name cause taken := by
  cases htarget : m.target? name with
  | none => exact .inr ⟨_, _, .undeclared htarget⟩
  | some target =>
    obtain ⟨constant, ty⟩ := target
    cases constant with
    | true => exact .inr ⟨_, _, .constant htarget⟩
    | false =>
      cases hinputs : m.inputs with
      | nil => exact .inr ⟨_, _, .exhausted htarget rfl⟩
      | cons raw rest =>
        cases hread : Value.read? ty raw with
        | none => exact .inr ⟨_, _, .unreadable htarget rfl hread⟩
        | some value => exact .inl ⟨raw, rest, value, rfl, ty, htarget, hread⟩

end Machine

/-! ## One target -/

section Target
variable {m : Machine} {name : String}

theorem Machine.resolveVariable_target {ty : Ty} (h : m.target? name = some (false, ty))
    (line : Nat) :
    ∃ binding, resolveVariable name line m = .ok binding m ∧ binding.ty = ty := by
  obtain ⟨binding, hresolve, hconstant, hty⟩ := exists_of_target? h
  have hok : resolve name line m = .ok binding m := by
    unfold resolve
    rw [get_bind, hresolve]
    rfl
  refine ⟨binding, ?_, hty⟩
  unfold resolveVariable
  rw [bind_ok hok, hconstant]
  rfl

theorem Machine.takeInput_cons {raw : String} {rest : List String} (h : m.inputs = raw :: rest)
    (line : Nat) : takeInput name line m = .ok raw { m with inputs := rest } := by
  unfold takeInput
  rw [get_bind, h]
  rfl

/-- A value that was read has the type of its target, so it is stored as it is. -/
theorem assign_accepted {raw : String} {value : Value} (h : m.Accepts name raw value) (line : Nat) :
    assign name value line m = .ok () (m.set name value) := by
  obtain ⟨ty, htarget, hread⟩ := h
  obtain ⟨binding, hbinding, rfl⟩ := m.resolveVariable_target htarget line
  unfold assign
  rw [bind_ok hbinding, Value.coerce_of_ty (Value.read?_ty hread)]
  rfl

theorem readInto_accepts {raw : String} {rest : List String} {value : Value}
    (hinputs : m.inputs = raw :: rest) (h : m.Accepts name raw value) (line : Nat) :
    readInto name line m = .ok () (({ m with inputs := rest } : Machine).set name value) := by
  have htaken : ({ m with inputs := rest } : Machine).Accepts name raw value := h
  obtain ⟨ty, htarget, hread⟩ := h
  obtain ⟨binding, hbinding, rfl⟩ := m.resolveVariable_target htarget line
  unfold readInto
  rw [bind_ok hbinding, bind_ok (Machine.takeInput_cons hinputs line), Value.ofInput, hread]
  exact assign_accepted htaken line

theorem readInto_refuses {cause : RuntimeCause} {taken : Nat}
    (h : m.Refuses m.inputs name cause taken) (line : Nat) :
    readInto name line m = .error ⟨cause, line⟩ { m with inputs := m.inputs.drop taken } := by
  unfold readInto
  cases h with
  | undeclared htarget =>
    have hnone : m.resolve? name = none := Option.map_eq_none_iff.1 htarget
    have hfail : resolveVariable name line m = .error ⟨.undeclaredVariable name, line⟩ m := by
      unfold resolveVariable resolve
      rw [bind_assoc, get_bind, hnone]
      rfl
    exact bind_error hfail
  | constant htarget =>
    obtain ⟨binding, hresolve, hconstant, -⟩ := Machine.exists_of_target? htarget
    have hfail : resolveVariable name line m = .error ⟨.constantAssignment name, line⟩ m := by
      unfold resolveVariable resolve
      rw [bind_assoc, get_bind, hresolve, pure_bind, hconstant]
      rfl
    exact bind_error hfail
  | exhausted htarget hinputs =>
    obtain ⟨binding, hbinding, rfl⟩ := m.resolveVariable_target htarget line
    have hfail : takeInput name line m = .error ⟨.inputExhausted name m.supplied, line⟩ m := by
      unfold takeInput
      rw [get_bind, hinputs]
      rfl
    rw [bind_ok hbinding, bind_error hfail]
    rfl
  | unreadable htarget hinputs hread =>
    obtain ⟨binding, hbinding, rfl⟩ := m.resolveVariable_target htarget line
    rw [bind_ok hbinding, bind_ok (Machine.takeInput_cons hinputs line), Value.ofInput, hread, hinputs]
    rfl

end Target

/-! ## All targets -/

namespace Machine

/-- So many values were read, each from the input that stands where its target does. -/
structure ReadUpTo (m : Machine) (targets : List String) (values : List Value) : Prop where
  targets_le : values.length ≤ targets.length
  inputs_le : values.length ≤ m.inputs.length
  accepts : ∀ (i : Nat) (name raw : String) (value : Value), targets[i]? = some name →
    m.inputs[i]? = some raw → values[i]? = some value → m.Accepts name raw value

/-- What refuses after a value is stored and its input taken would have done so before. -/
theorem Refuses.of_set {m : Machine} {rest inputs : List String} {name other : String} {value : Value}
    {cause : RuntimeCause} {taken : Nat}
    (h : (({ m with inputs := rest } : Machine).set name value).Refuses inputs other cause taken) :
    m.Refuses inputs other cause taken := by
  have hsame : (({ m with inputs := rest } : Machine).set name value).target? other =
      m.target? other := target?_set _ _ _ _
  have hsupplied : (({ m with inputs := rest } : Machine).set name value).supplied = m.supplied :=
    set_supplied _ _ _
  cases h with
  | undeclared htarget => exact .undeclared (hsame ▸ htarget)
  | constant htarget => exact .constant (hsame ▸ htarget)
  | exhausted htarget hinputs =>
    rw [hsupplied]
    exact .exhausted (hsame ▸ htarget) hinputs
  | unreadable htarget hinputs hread => exact .unreadable (hsame ▸ htarget) hinputs hread

theorem ReadUpTo.cons {m : Machine} {name raw : String} {rest targets : List String} {value : Value}
    {values : List Value} (hinputs : m.inputs = raw :: rest) (hvalue : m.Accepts name raw value)
    (h : (({ m with inputs := rest } : Machine).set name value).ReadUpTo targets values) :
    m.ReadUpTo (name :: targets) (value :: values) := by
  have hkept := set_inputs { m with inputs := rest } name value
  refine ⟨Nat.succ_le_succ h.targets_le, ?_, fun i other raw' value' htarget hraw hread => ?_⟩
  · have hlength := h.inputs_le
    rw [hkept] at hlength
    rw [hinputs]
    exact Nat.succ_le_succ hlength
  · rw [hinputs] at hraw
    cases i with
    | zero =>
      cases htarget
      cases hraw
      cases hread
      exact hvalue
    | succ i =>
      obtain ⟨ty, hty, hread'⟩ := h.accepts i other raw' value' htarget (hkept ▸ hraw) hread
      rw [target?_set] at hty
      exact ⟨ty, hty, hread'⟩

end Machine

/-- The targets are read up to the end, or up to the first one that refuses. -/
theorem readAll_cases (line : Nat) (targets : List String) (m : Machine) :
    ∃ values, m.ReadUpTo targets values ∧
      (values.length = targets.length ∧ readAll line targets m =
          .ok () (m.afterReading (targets.zip values) targets.length) ∨
        ∃ name cause taken, targets[values.length]? = some name ∧
          m.Refuses (m.inputs.drop values.length) name cause taken ∧
          readAll line targets m =
            .error ⟨cause, line⟩ (m.afterReading (targets.zip values) (values.length + taken))) := by
  induction targets generalizing m with
  | nil =>
    refine ⟨[], ⟨Nat.le_refl _, Nat.zero_le _, fun i _ _ _ h => by cases h⟩, .inl ⟨rfl, ?_⟩⟩
    rw [List.zip_nil_left, List.length_nil, m.afterReading_nil]
    rfl
  | cons name targets ih =>
    rcases m.accepts_or_refuses name with
      ⟨raw, rest, value, hinputs, hvalue⟩ | ⟨cause, taken, hrefuses⟩
    · have hread := readInto_accepts hinputs hvalue line
      obtain ⟨values, hupto, hend⟩ := ih (({ m with inputs := rest } : Machine).set name value)
      refine ⟨value :: values, hupto.cons hinputs hvalue, ?_⟩
      rw [readAll, bind_ok hread]
      rcases hend with ⟨hlength, hok⟩ | ⟨other, cause, taken, hother, hrefuses, herror⟩
      · refine .inl ⟨congrArg (· + 1) hlength, ?_⟩
        rw [hok, m.afterReading_cons hinputs]
        rfl
      · refine .inr ⟨other, cause, taken, hother, ?_, ?_⟩
        · rw [Machine.set_inputs] at hrefuses
          rw [hinputs]
          exact hrefuses.of_set
        · rw [herror, m.afterReading_cons hinputs, List.zip_cons_cons, List.length_cons,
            Nat.add_right_comm]
    · refine ⟨[], ⟨Nat.zero_le _, Nat.zero_le _, fun _ _ _ _ _ _ h => by cases h⟩,
        .inr ⟨name, cause, taken, rfl, hrefuses, ?_⟩⟩
      rw [readAll, bind_error (readInto_refuses hrefuses line), List.zip_nil_right, List.length_nil,
        Nat.zero_add, m.afterReading_nil]

/-! ## The statement -/

/-- Reading into targets stores the first of the inputs, each as a value of the type of its target, up
to the first target that refuses. What refuses for want of a variable or of an input takes none; an
input that is no value of the type is taken. Nothing else changes, and of two values for one name the
last one counts. The store that follows a conversion never fails. -/
theorem exec_read (invoke : Invoke) (targets : List String) (line : Nat) (m : Machine) :
    (∃ values, m.ReadUpTo targets values ∧
      (values.length = targets.length ∧ exec invoke (.read targets line) m =
          .ok .normal (m.afterReading (targets.zip values) targets.length) ∨
        ∃ name cause taken, targets[values.length]? = some name ∧
          m.Refuses (m.inputs.drop values.length) name cause taken ∧
          exec invoke (.read targets line) m =
            .error ⟨cause, line⟩ (m.afterReading (targets.zip values) (values.length + taken))) ∧
      ∀ name, (m.scope.setAll (targets.zip values)).get? name =
        (m.scope.get? name).map fun binding => { binding with
          value := (Environment.lastStored (targets.zip values) name).getD binding.value }) ∧
    ∀ (m' : Machine) (name raw : String) (value : Value), m'.Accepts name raw value →
      assign name value line m' = .ok () (m'.set name value) := by
  refine ⟨?_, fun m' name raw value h => assign_accepted h line⟩
  obtain ⟨values, hupto, hend⟩ := readAll_cases line targets m
  refine ⟨values, hupto, ?_, m.scope.get?_setAll _⟩
  rw [exec]
  rcases hend with ⟨hlength, hok⟩ | ⟨name, cause, taken, hname, hrefuses, herror⟩
  · refine .inl ⟨hlength, ?_⟩
    rw [bind_ok hok]
    rfl
  · exact .inr ⟨name, cause, taken, hname, hrefuses, bind_error herror⟩

end Pseudocode
