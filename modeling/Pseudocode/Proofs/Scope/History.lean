import Mathlib.Data.List.Forall2
import Pseudocode.Proofs.Scope

/-! # Scopes over time

A scope only changes by new bindings at its end and by values stored in bindings that it has. Here is
what such changes keep:

* `Environment.Keyed`: every binding is found under the key of its own name, and by that key alone.
* `Environment.Becomes`: a binding stays what it is, a constant keeps its value, and a variable that
  has a value goes on having one. -/

namespace Pseudocode
set_option autoImplicit false

namespace Environment

/-! ## Stored values, entry by entry -/

/-- Storing a value leaves the entries as they are, but for the one that is found. -/
theorem forall₂_setEntry (key : String) (value : Value) (entries : List (String × Binding)) :
    List.Forall₂ (fun old new => new = old ∨
        entries.lookup key = some old.2 ∧ new = (old.1, { old.2 with value }))
      entries (setEntry key value entries) := by
  induction entries with
  | nil => exact .nil
  | cons first rest ih =>
    obtain ⟨k, binding⟩ := first
    unfold setEntry
    by_cases hkey : key = k
    · subst hkey
      have hbeq : (key == key) = true := beq_self_eq_true key
      rw [if_pos hbeq]
      have hrest : List.Forall₂ Eq rest rest := List.forall₂_refl rest
      exact .cons (.inr ⟨List.lookup_cons_self, rfl⟩) (hrest.imp fun _ _ h => .inl h.symm)
    · have hbeq : (key == k) = false := beq_false_of_ne hkey
      rw [hbeq, if_neg Bool.false_ne_true]
      refine .cons (.inl rfl) (ih.imp fun old new h => ?_)
      rwa [List.lookup_cons, hbeq]

/-- The bindings after a value is stored, one by one. -/
theorem forall₂_set (env : Environment) (name : String) (value : Value) :
    List.Forall₂ (fun old new => new = old ∨
        env.get? name = some old ∧ new = { old with value })
      env.bindings (env.set name value).bindings := by
  unfold bindings
  rw [List.forall₂_map_left_iff, List.forall₂_map_right_iff]
  refine (forall₂_setEntry (Text.nameKey name) value env.entries).imp fun old new h => ?_
  rcases h with rfl | ⟨hfound, rfl⟩
  · exact .inl rfl
  · exact .inr ⟨hfound, rfl⟩

/-! ## Keys -/

/-- Every binding stands under the key of its name, and no two under one key. -/
structure Keyed (env : Environment) : Prop where
  keys : env.entries.map Prod.fst = env.bindings.map fun binding => Text.nameKey binding.name
  distinct : (env.entries.map Prod.fst).Nodup

theorem keyed_empty : Environment.empty.Keyed := ⟨rfl, List.nodup_nil⟩

theorem Keyed.insert {env env' : Environment} {binding : Binding} {line : Nat} (h : env.Keyed)
    (hinsert : env.insert binding line = .ok env') : env'.Keyed := by
  have hbindings := bindings_insert hinsert
  obtain ⟨hnone, rfl⟩ := insert_eq hinsert
  have hfresh : Text.nameKey binding.name ∉ env.entries.map Prod.fst := by
    intro hmem
    obtain ⟨entry, hentry, hkey⟩ := List.mem_map.1 hmem
    have hne := List.lookup_eq_none_iff.1 hnone entry hentry
    simp [hkey] at hne
  constructor
  · rw [hbindings]
    simp only [List.map_append, List.map_cons, List.map_nil, h.keys]
  · rw [List.map_append]
    refine List.nodup_append.2 ⟨h.distinct, List.pairwise_singleton _ _, ?_⟩
    intro key hkey other hother heq
    obtain rfl : other = Text.nameKey binding.name := List.mem_singleton.1 hother
    exact hfresh (heq ▸ hkey)

theorem setEntry_keys (key : String) (value : Value) (entries : List (String × Binding)) :
    (setEntry key value entries).map Prod.fst = entries.map Prod.fst := by
  induction entries with
  | nil => rfl
  | cons first rest ih =>
    unfold setEntry
    split
    · rfl
    · rw [List.map_cons, List.map_cons, ih]

theorem set_names (env : Environment) (name : String) (value : Value) :
    (env.set name value).bindings.map Binding.name = env.bindings.map Binding.name := by
  refine List.forall₂_eq_eq_eq ▸ ?_
  rw [List.forall₂_map_left_iff, List.forall₂_map_right_iff]
  refine ((forall₂_set env name value).imp fun old new h => ?_).flip
  rcases h with rfl | ⟨-, rfl⟩ <;> rfl

theorem Keyed.set {env : Environment} (h : env.Keyed) (name : String) (value : Value) :
    (env.set name value).Keyed := by
  have hkeys : (env.set name value).entries.map Prod.fst = env.entries.map Prod.fst :=
    setEntry_keys _ _ _
  have hnames := congrArg (List.map Text.nameKey) (set_names env name value)
  rw [List.map_map, List.map_map] at hnames
  exact ⟨hkeys.trans (h.keys.trans hnames.symm), hkeys ▸ h.distinct⟩

end Environment

/-! ## What becomes of a binding -/

/-- What a binding may be later on. -/
structure Binding.Becomes (old new : Binding) : Prop where
  name : new.name = old.name
  ty : new.ty = old.ty
  constant : new.constant = old.constant
  fixed : old.constant = true → new.value = old.value
  kept : old.value ≠ .uninitialized → new.value ≠ .uninitialized

theorem Binding.Becomes.refl (binding : Binding) : binding.Becomes binding :=
  ⟨rfl, rfl, rfl, fun _ => rfl, id⟩

theorem Binding.Becomes.trans {old middle new : Binding} (h : old.Becomes middle)
    (h' : middle.Becomes new) : old.Becomes new where
  name := h'.name.trans h.name
  ty := h'.ty.trans h.ty
  constant := h'.constant.trans h.constant
  fixed hconstant := (h'.fixed (h.constant.trans hconstant)).trans (h.fixed hconstant)
  kept hvalue := h'.kept (h.kept hvalue)

namespace Environment

/-- Every name that is bound stays bound, to what its binding may become. -/
def Becomes (env env' : Environment) : Prop :=
  ∀ (name : String) (old : Binding), env.get? name = some old →
    ∃ new, env'.get? name = some new ∧ old.Becomes new

theorem Becomes.refl (env : Environment) : env.Becomes env :=
  fun _ old h => ⟨old, h, .refl old⟩

theorem Becomes.trans {env middle env' : Environment} (h : env.Becomes middle)
    (h' : middle.Becomes env') : env.Becomes env' := by
  intro name old hold
  obtain ⟨binding, hbinding, hfirst⟩ := h name old hold
  obtain ⟨new, hnew, hsecond⟩ := h' name binding hbinding
  exact ⟨new, hnew, hfirst.trans hsecond⟩

theorem becomes_insert {env env' : Environment} {binding : Binding} {line : Nat}
    (hinsert : env.insert binding line = .ok env') : env.Becomes env' :=
  fun _ old hold => ⟨old, get?_insert hinsert hold, .refl old⟩

/-- Values are only stored in variables, and what is stored is a value. -/
theorem becomes_set {env : Environment} {name : String} {binding : Binding} {value : Value}
    (hget : env.get? name = some binding) (hconstant : binding.constant = false)
    (hvalue : value ≠ .uninitialized) : env.Becomes (env.set name value) := by
  intro other old hold
  rw [get?_set]
  by_cases hkey : Text.nameKey other = Text.nameKey name
  · have hsame : env.get? other = env.get? name := by
      unfold get?
      rw [hkey]
    obtain rfl : old = binding := Option.some.inj (hold.symm.trans (hsame.trans hget))
    rw [if_pos hkey, hold]
    refine ⟨_, rfl, rfl, rfl, rfl, fun htrue => ?_, fun _ => hvalue⟩
    rw [hconstant] at htrue
    cases htrue
  · rw [if_neg hkey]
    exact ⟨old, hold, .refl old⟩

end Environment
end Pseudocode
