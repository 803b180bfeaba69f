import Pseudocode.Machine.Call
import Pseudocode.Proofs.Value.Typing

/-! # Typed scopes

A binding is sound when it holds nothing yet or a value of exactly its type, and a constant holds a
value. This file follows soundness, and what is known of the parameters of a routine, through the
operations on scopes:

* `Environment.bindings_insert`, `Environment.get?_insert`: what a new binding does.
* `Environment.get?_set`, `Environment.mem_set`: what storing a value does.
* `Routine.scope_frame`: the scope of a call is sound and has all parameters with their values. -/

namespace Pseudocode
set_option autoImplicit false

/-! ## Bindings -/

/-- A binding holds nothing yet, or a value of exactly its type; a constant holds a value. -/
structure Binding.Sound (binding : Binding) : Prop where
  typed : binding.value = .uninitialized ∨ binding.value.ty? = some binding.ty
  defined : binding.constant = true → binding.value ≠ .uninitialized

theorem Binding.sound_declared (name : String) (ty : Ty) :
    Binding.Sound ⟨name, ty, .uninitialized, false⟩ :=
  ⟨.inl rfl, fun h => by cases h⟩

theorem Binding.sound_of_ty {binding : Binding} (h : binding.value.ty? = some binding.ty) :
    binding.Sound :=
  ⟨.inr h, fun _ => Value.ne_uninitialized_of_ty h⟩

namespace Environment

/-! ## New bindings -/

section Insert
variable {env env' : Environment} {binding : Binding} {line : Nat}
  (h : env.insert binding line = .ok env')
include h

theorem insert_eq : env.get? binding.name = none ∧
    env' = ⟨env.entries ++ [(Text.nameKey binding.name, binding)]⟩ := by
  unfold insert at h
  split at h
  · cases h
  · rename_i hnone
    cases h
    exact ⟨hnone, rfl⟩

theorem bindings_insert : env'.bindings = env.bindings ++ [binding] := by
  obtain ⟨-, rfl⟩ := insert_eq h
  simp only [bindings, List.map_append, List.map_cons, List.map_nil]

theorem get?_insert_self : env'.get? binding.name = some binding := by
  obtain ⟨hnone, rfl⟩ := insert_eq h
  unfold get? at hnone ⊢
  rw [List.lookup_append, hnone]
  simp only [List.lookup_cons_self, Option.none_or]

theorem get?_insert {name : String} {found : Binding} (hfound : env.get? name = some found) :
    env'.get? name = some found := by
  obtain ⟨-, rfl⟩ := insert_eq h
  unfold get? at hfound ⊢
  rw [List.lookup_append, hfound, Option.some_or]

end Insert

/-! ## Stored values -/

theorem lookup_setEntry (key : String) (value : Value) (entries : List (String × Binding))
    (other : String) :
    (setEntry key value entries).lookup other =
      if other = key then (entries.lookup other).map fun binding => { binding with value }
      else entries.lookup other := by
  induction entries with
  | nil => simp [setEntry]
  | cons entry rest ih =>
    obtain ⟨k, binding⟩ := entry
    unfold setEntry
    by_cases hkey : key = k
    · subst hkey
      by_cases hother : other = key
      · subst hother
        simp
      · simp [List.lookup_cons, beq_false_of_ne hother, hother]
    · by_cases hother : other = k
      · subst hother
        have hne : other ≠ key := fun heq => hkey heq.symm
        simp [hkey, hne]
      · simp only [beq_iff_eq, hkey, if_false, List.lookup_cons, beq_false_of_ne hother, ih]

/-- A value that is stored under a name is found under that name only. -/
theorem get?_set (env : Environment) (name : String) (value : Value) (other : String) :
    (env.set name value).get? other =
      if Text.nameKey other = Text.nameKey name then
        (env.get? other).map fun binding => { binding with value }
      else env.get? other :=
  lookup_setEntry _ _ _ _

theorem mem_setEntry {key : String} {value : Value} {entries : List (String × Binding)}
    {entry : String × Binding} (h : entry ∈ setEntry key value entries) :
    entry ∈ entries ∨
      ∃ binding, entries.lookup key = some binding ∧ entry.2 = { binding with value } := by
  induction entries with
  | nil => cases h
  | cons first rest ih =>
    obtain ⟨k, binding⟩ := first
    unfold setEntry at h
    by_cases hkey : key = k
    · subst hkey
      simp only [beq_self_eq_true, if_true, List.mem_cons] at h
      rcases h with rfl | hrest
      · exact .inr ⟨binding, List.lookup_cons_self, rfl⟩
      · exact .inl (List.mem_cons_of_mem _ hrest)
    · simp only [beq_iff_eq, hkey, if_false, List.mem_cons] at h
      rcases h with rfl | hrest
      · exact .inl List.mem_cons_self
      · rcases ih hrest with hmem | ⟨found, hfound, heq⟩
        · exact .inl (List.mem_cons_of_mem _ hmem)
        · refine .inr ⟨found, ?_, heq⟩
          rw [List.lookup_cons, beq_false_of_ne hkey]
          exact hfound

/-- The bindings after a value is stored: the old ones, and that of the name with the value. -/
theorem mem_set {env : Environment} {name : String} {value : Value} {binding : Binding}
    (h : binding ∈ (env.set name value).bindings) :
    binding ∈ env.bindings ∨ ∃ old, env.get? name = some old ∧ binding = { old with value } := by
  obtain ⟨entry, hentry, rfl⟩ := List.mem_map.1 h
  rcases mem_setEntry hentry with hold | ⟨old, hfound, heq⟩
  · exact .inl (List.mem_map_of_mem hold)
  · exact .inr ⟨old, hfound, heq⟩

/-! ## Soundness -/

/-- Every binding of the scope is sound. -/
def Sound (env : Environment) : Prop := ∀ binding ∈ env.bindings, binding.Sound

/-- The scope has the parameter, with a value of its type. -/
def Holds (env : Environment) (param : Param) : Prop :=
  ∃ binding, env.get? param.name = some binding ∧ binding.ty = param.ty ∧
    binding.value.ty? = some param.ty

theorem sound_empty : Environment.empty.Sound := by
  intro binding h
  cases h

theorem Sound.insert {env env' : Environment} {binding : Binding} {line : Nat} (h : env.Sound)
    (hinsert : env.insert binding line = .ok env') (hbinding : binding.Sound) : env'.Sound := by
  intro other hother
  rw [bindings_insert hinsert, List.mem_append, List.mem_singleton] at hother
  rcases hother with hold | rfl
  · exact h other hold
  · exact hbinding

theorem Sound.set {env : Environment} {name : String} {value : Value} {binding : Binding}
    (h : env.Sound) (hget : env.get? name = some binding) (hty : value.ty? = some binding.ty) :
    (env.set name value).Sound := by
  intro other hother
  rcases mem_set hother with hold | ⟨old, hfound, rfl⟩
  · exact h other hold
  · obtain rfl : old = binding := Option.some.inj (hfound.symm.trans hget)
    exact Binding.sound_of_ty hty

theorem Holds.insert {env env' : Environment} {binding : Binding} {line : Nat} {param : Param}
    (h : env.Holds param) (hinsert : env.insert binding line = .ok env') : env'.Holds param := by
  obtain ⟨found, hfound, hty⟩ := h
  exact ⟨found, get?_insert hinsert hfound, hty⟩

theorem Holds.set {env : Environment} {name : String} {value : Value} {binding : Binding}
    {param : Param} (h : env.Holds param) (hget : env.get? name = some binding)
    (hty : value.ty? = some binding.ty) : (env.set name value).Holds param := by
  obtain ⟨found, hfound, hparam, hvalue⟩ := h
  by_cases hkey : Text.nameKey param.name = Text.nameKey name
  · -- The parameter itself gets the value, which has the type of the parameter.
    have hsame : env.get? param.name = env.get? name := by
      unfold get?
      rw [hkey]
    obtain rfl : found = binding := Option.some.inj (hfound.symm.trans (hsame.trans hget))
    refine ⟨{ found with value }, ?_, hparam, hparam ▸ hty⟩
    rw [get?_set, if_pos hkey, hfound, Option.map_some]
  · refine ⟨found, ?_, hparam, hvalue⟩
    rw [get?_set, if_neg hkey, hfound]

theorem declareAll_sound {env env' : Environment} (names : List (String × Ty × Nat))
    (h : env.declareAll names = .ok env') (hsound : env.Sound) :
    env'.Sound ∧ ∀ param, env.Holds param → env'.Holds param := by
  induction names generalizing env with
  | nil =>
    cases h
    exact ⟨hsound, fun _ hparam => hparam⟩
  | cons first rest ih =>
    obtain ⟨name, ty, line⟩ := first
    obtain ⟨middle, hdeclare, hrest⟩ := exists_of_bind_eq_ok h
    obtain ⟨hsound', hholds⟩ := ih hrest (hsound.insert hdeclare (Binding.sound_declared name ty))
    exact ⟨hsound', fun param hparam => hholds param (hparam.insert hdeclare)⟩

end Environment

/-! ## Calls -/

namespace Routine

/-- What is known of the scope of a call: its bindings are sound, and the parameters have values. -/
structure Scope (routine : Routine) (frame : Environment) : Prop where
  sound : frame.Sound
  params : ∀ param ∈ routine.params, frame.Holds param

theorem bindParams_sound {routine : Routine} {line : Nat} {env env' : Environment}
    (pairs : List (Param × Value)) (h : routine.bindParams line env pairs = .ok env')
    (hsound : env.Sound) :
    env'.Sound ∧ (∀ param, env.Holds param → env'.Holds param) ∧
      ∀ param ∈ pairs.map Prod.fst, env'.Holds param := by
  induction pairs generalizing env with
  | nil =>
    cases h
    exact ⟨hsound, fun _ hparam => hparam, fun _ hmem => by cases hmem⟩
  | cons first rest ih =>
    obtain ⟨param, value⟩ := first
    obtain ⟨converted, hcoerce, hdefined⟩ := exists_of_bind_eq_ok h
    obtain ⟨middle, hdefine, hparams⟩ := exists_of_bind_eq_ok hdefined
    have hty : converted.ty? = some param.ty := Value.coerce_ty hcoerce
    have hmiddle := hsound.insert hdefine (Binding.sound_of_ty hty)
    have hself := Environment.get?_insert_self hdefine
    obtain ⟨hsound', hkept, hrest⟩ := ih hparams hmiddle
    refine ⟨hsound', fun other hother => hkept other (hother.insert hdefine), ?_⟩
    intro other hother
    rw [List.map_cons, List.mem_cons] at hother
    rcases hother with rfl | hother
    · exact hkept other ⟨_, hself, rfl, hty⟩
    · exact hrest other hother

/-- The scope of a call is sound, and with a value for each parameter it has all of them. -/
theorem scope_frame {routine : Routine} {values : List Value} {line : Nat} {frame : Environment}
    (hlength : values.length = routine.params.length)
    (h : routine.frame values line = .ok frame) : routine.Scope frame := by
  obtain ⟨env, hparams, hlocals⟩ := exists_of_bind_eq_ok h
  obtain ⟨hsound, -, hbound⟩ := bindParams_sound _ hparams Environment.sound_empty
  obtain ⟨hsound', hkept⟩ := Environment.declareAll_sound _ hlocals hsound
  refine ⟨hsound', fun param hparam => hkept param (hbound param ?_)⟩
  rw [List.map_fst_zip (Nat.le_of_eq hlength.symm)]
  exact hparam

end Routine
end Pseudocode
