import Mathlib.Data.List.Induction
import Pseudocode.Execution
import Pseudocode.Proofs.Scope.History
import Pseudocode.Proofs.Text.NameKey

/-! # The index of a scope

A scope may be kept as an array of bindings, in the order of their declaration, and a map from the
keys of their names to their places in it. The two are changed one after the other, and they agree
because nothing but a new binding moves the end of the array and no binding ever changes its name.

* `IndexedScope`: a scope of this kind.
* `Represents`: it holds what a scope holds, and its index leads from each key to its binding.
* `Represents.insert`, `Represents.set`: what every operation preserves.
* `scope_indexed`: what holds after any row of operations. -/

namespace Pseudocode
set_option autoImplicit false

/-! ## Scopes with an index -/

structure IndexedScope where
  bindings : Array Binding
  index : Std.HashMap String Nat

namespace IndexedScope

def empty : IndexedScope := ⟨#[], ∅⟩

/-- The place where the binding of a name should be. -/
def slot? (scope : IndexedScope) (name : String) : Option Nat :=
  scope.index[Text.nameKey name]?

def get? (scope : IndexedScope) (name : String) : Option Binding :=
  (scope.slot? name).bind fun slot => scope.bindings[slot]?

/-- Adds a binding at the end, unless its key is in the index. -/
def insert (binding : Binding) (line : Nat) : EStateM RuntimeError IndexedScope Unit := do
  if ((← get).slot? binding.name).isSome then throw ⟨.alreadyDeclared binding.name, line⟩
  modify fun scope =>
    { scope with index := scope.index.insert (Text.nameKey binding.name) scope.bindings.size }
  modify fun scope => { scope with bindings := scope.bindings.push binding }

/-- Stores a value in the binding of a name, if it has one. -/
def set (name : String) (value : Value) : EStateM RuntimeError IndexedScope Unit :=
  modify fun scope =>
    match scope.slot? name with
    | some slot =>
      { scope with bindings := scope.bindings.modify slot fun binding => { binding with value } }
    | none => scope

theorem insert_eq (binding : Binding) (line : Nat) (scope : IndexedScope) :
    insert binding line scope =
      if (scope.slot? binding.name).isSome then
        .error ⟨.alreadyDeclared binding.name, line⟩ scope
      else
        .ok () ⟨scope.bindings.push binding,
          scope.index.insert (Text.nameKey binding.name) scope.bindings.size⟩ := by
  have hget {f : IndexedScope → EStateM RuntimeError IndexedScope Unit} :
      (get >>= f) scope = f scope scope := rfl
  rw [insert, hget]
  split <;> rfl

end IndexedScope

/-! ## The bindings of a scope -/

theorem map_store_of_absent {bindings : List Binding} {name : String}
    (h : ∀ binding ∈ bindings, ¬SameName binding.name name) (value : Value) :
    bindings.map (fun binding =>
      if SameName binding.name name then { binding with value } else binding) = bindings :=
  (List.map_congr_left fun binding hbinding => if_neg (h binding hbinding)).trans (List.map_id _)

namespace Environment
variable {env : Environment}

/-- The entries are the bindings with their keys. -/
theorem Keyed.entries_eq (h : env.Keyed) :
    env.entries = env.bindings.map fun binding => (Text.nameKey binding.name, binding) := by
  have hkeys := h.keys
  unfold bindings at hkeys ⊢
  generalize env.entries = entries at hkeys ⊢
  induction entries with
  | nil => rfl
  | cons entry entries ih =>
    obtain ⟨key, binding⟩ := entry
    simp only [List.map_cons, List.cons.injEq] at hkeys ⊢
    exact ⟨by rw [hkeys.1], ih hkeys.2⟩

/-- Looking a name up is looking for the first binding with its key. -/
theorem Keyed.get?_eq_find? (h : env.Keyed) (name : String) :
    env.get? name =
      env.bindings.find? fun binding => Text.nameKey binding.name == Text.nameKey name := by
  unfold get?
  rw [h.entries_eq]
  induction env.bindings with
  | nil => rfl
  | cons binding bindings ih =>
    rw [List.map_cons, List.lookup_cons, List.find?_cons, BEq.comm, ih]

theorem Keyed.names_distinct (h : env.Keyed) :
    (env.bindings.map fun binding => Text.nameKey binding.name).Nodup :=
  h.keys ▸ h.distinct

/-- Storing a value changes the binding of the name and leaves the others. -/
theorem Keyed.bindings_set (h : env.Keyed) (name : String) (value : Value) :
    (env.set name value).bindings = env.bindings.map fun binding =>
      if SameName binding.name name then { binding with value } else binding := by
  have hdistinct := h.names_distinct
  have hset : (env.set name value).bindings =
      (setEntry (Text.nameKey name) value env.entries).map Prod.snd := rfl
  rw [hset, h.entries_eq]
  generalize env.bindings = bindings at hdistinct ⊢
  induction bindings with
  | nil => rfl
  | cons binding bindings ih =>
    rw [List.map_cons, List.nodup_cons] at hdistinct
    obtain ⟨hfresh, hdistinct⟩ := hdistinct
    rw [List.map_cons, List.map_cons, setEntry]
    by_cases hname : SameName binding.name name
    · have hkey : (Text.nameKey name == Text.nameKey binding.name) = true := beq_iff_eq.2 hname.symm
      have hothers : ∀ other ∈ bindings, ¬SameName other.name name := by
        intro other hother hsame
        have hkeys : Text.nameKey other.name = Text.nameKey binding.name := hsame.trans hname.symm
        exact hfresh (hkeys ▸ List.mem_map_of_mem hother)
      rw [if_pos hkey, if_pos hname, map_store_of_absent hothers value, List.map_cons, List.map_map]
      exact congrArg _ (List.map_id _)
    · have hkey : ¬(Text.nameKey name == Text.nameKey binding.name) = true :=
        fun heq => hname (beq_iff_eq.1 heq).symm
      rw [if_neg hkey, if_neg hname, List.map_cons, ih hdistinct]

end Environment

/-! ## Representation -/

/-- What stands in a list with a new end stood there before, or is the end. -/
theorem getElem?_concat_eq_some {α : Type} {as : List α} {a b : α} {i : Nat} :
    (as ++ [a])[i]? = some b ↔ as[i]? = some b ∨ i = as.length ∧ a = b := by
  rcases Nat.lt_trichotomy i as.length with hi | rfl | hi
  · rw [List.getElem?_append_left hi]
    simp [Nat.ne_of_lt hi]
  · simp
  · have hearlier : as[i]? = none := List.getElem?_eq_none (Nat.le_of_lt hi)
    have hlater : (as ++ [a])[i]? = none := List.getElem?_eq_none (by simp; omega)
    rw [hearlier, hlater]
    simp [Nat.ne_of_gt hi]

/-- Whether a scope with an index holds what a scope holds, and its index leads from each key to the
binding with that key. -/
structure Represents (env : Environment) (scope : IndexedScope) : Prop where
  keyed : env.Keyed
  bindings : scope.bindings.toList = env.bindings
  slot : ∀ (name : String) (slot : Nat), scope.slot? name = some slot ↔
    ∃ binding, env.bindings[slot]? = some binding ∧ SameName binding.name name

theorem represents_empty : Represents .empty .empty where
  keyed := Environment.keyed_empty
  bindings := rfl
  slot name slot := by
    simp [IndexedScope.slot?, IndexedScope.empty, Environment.empty, Environment.bindings]

namespace Represents
variable {env : Environment} {scope : IndexedScope}

theorem isSome_slot? (h : Represents env scope) (name : String) :
    (scope.slot? name).isSome ↔ ∃ binding ∈ env.bindings, SameName binding.name name := by
  rw [Option.isSome_iff_exists]
  simp only [h.slot, List.mem_iff_getElem?]
  constructor
  · rintro ⟨slot, binding, hslot, hname⟩
    exact ⟨binding, ⟨slot, hslot⟩, hname⟩
  · rintro ⟨binding, ⟨slot, hslot⟩, hname⟩
    exact ⟨slot, binding, hslot, hname⟩

theorem getElem?_bindings (h : Represents env scope) (slot : Nat) :
    scope.bindings[slot]? = env.bindings[slot]? := by
  rw [← h.bindings, Array.getElem?_toList]

theorem get? (h : Represents env scope) (name : String) : scope.get? name = env.get? name := by
  rw [h.keyed.get?_eq_find?, IndexedScope.get?]
  cases hslot : scope.slot? name with
  | none =>
    refine (List.find?_eq_none.2 fun binding hbinding hname => ?_).symm
    have hsome := (h.isSome_slot? name).2 ⟨binding, hbinding, beq_iff_eq.1 hname⟩
    rw [hslot] at hsome
    cases hsome
  | some slot =>
    obtain ⟨binding, hbinding, hname⟩ := (h.slot name slot).1 hslot
    rw [Option.bind_some, h.getElem?_bindings, hbinding]
    symm
    cases hfound : env.bindings.find? fun binding =>
        Text.nameKey binding.name == Text.nameKey name with
    | none =>
      have hnone := List.find?_eq_none.1 hfound binding (List.mem_of_getElem? hbinding)
      exact absurd (beq_iff_eq.2 hname) hnone
    | some found =>
      -- what is found stands at some place, and the index leads there
      obtain ⟨other, hother⟩ := List.mem_iff_getElem?.1 (List.mem_of_find?_eq_some hfound)
      have hkey := List.find?_some hfound
      have hsame := (h.slot name other).2 ⟨found, hother, beq_iff_eq.1 hkey⟩
      obtain rfl : slot = other := Option.some.inj (hslot.symm.trans hsame)
      rw [← hother, hbinding]

theorem isSome_get? (h : Represents env scope) (name : String) :
    (env.get? name).isSome = (scope.slot? name).isSome := by
  rw [← h.get?, IndexedScope.get?]
  cases hslot : scope.slot? name with
  | none => rfl
  | some slot =>
    obtain ⟨binding, hbinding, -⟩ := (h.slot name slot).1 hslot
    rw [Option.bind_some, h.getElem?_bindings, hbinding]
    rfl

/-- A new binding gets the place that the index gives to its key. -/
theorem push (h : Represents env scope) {env' : Environment} {binding : Binding} {line : Nat}
    (hinsert : env.insert binding line = .ok env') :
    Represents env' ⟨scope.bindings.push binding,
      scope.index.insert (Text.nameKey binding.name) scope.bindings.size⟩ := by
  have hbindings := Environment.bindings_insert hinsert
  have hsize : scope.bindings.size = env.bindings.length := by
    rw [← h.bindings, Array.length_toList]
  have hfresh (slot : Nat) : scope.slot? binding.name ≠ some slot := by
    have hsome := h.isSome_get? binding.name
    rw [(Environment.insert_eq hinsert).1] at hsome
    intro hslot
    rw [hslot] at hsome
    cases hsome
  refine ⟨h.keyed.insert hinsert, ?_, fun name slot => ?_⟩
  · rw [hbindings, ← h.bindings]
    exact Array.toList_push
  · rw [IndexedScope.slot?, Std.HashMap.getElem?_insert, hbindings, hsize]
    by_cases hname : SameName binding.name name
    · have hsame : scope.slot? name = scope.slot? binding.name :=
        congrArg (scope.index[·]?) hname.symm
      rw [if_pos (beq_iff_eq.2 hname), Option.some.injEq]
      constructor
      · rintro rfl
        exact ⟨binding, getElem?_concat_eq_some.2 (.inr ⟨rfl, rfl⟩), hname⟩
      · rintro ⟨other, hother, hkey⟩
        rcases getElem?_concat_eq_some.1 hother with hearlier | ⟨rfl, -⟩
        · exact absurd (hsame ▸ (h.slot name slot).2 ⟨other, hearlier, hkey⟩) (hfresh slot)
        · rfl
    · rw [if_neg (fun heq => hname (beq_iff_eq.1 heq))]
      refine (h.slot name slot).trans ⟨?_, ?_⟩
      · rintro ⟨other, hother, hkey⟩
        exact ⟨other, getElem?_concat_eq_some.2 (.inl hother), hkey⟩
      · rintro ⟨other, hother, hkey⟩
        rcases getElem?_concat_eq_some.1 hother with hearlier | ⟨-, rfl⟩
        · exact ⟨other, hearlier, hkey⟩
        · exact absurd hkey hname

theorem insert (h : Represents env scope) (binding : Binding) (line : Nat) :
    match env.insert binding line with
    | .ok env' => ∃ scope', IndexedScope.insert binding line scope = .ok () scope' ∧
        Represents env' scope'
    | .error e => IndexedScope.insert binding line scope = .error e scope := by
  have hsome := h.isSome_get? binding.name
  have hrepresents (env' : Environment) (hinsert : env.insert binding line = .ok env') :=
    h.push hinsert
  rw [IndexedScope.insert_eq, ← hsome]
  unfold Environment.insert at hrepresents ⊢
  cases hget : env.get? binding.name with
  | some found => rfl
  | none =>
    rw [hget] at hrepresents
    exact ⟨_, rfl, hrepresents _ rfl⟩

theorem set (h : Represents env scope) (name : String) (value : Value) :
    ∃ scope', IndexedScope.set name value scope = .ok () scope' ∧
      Represents (env.set name value) scope' := by
  have hslots {bindings : Array Binding}
      (hbindings : bindings.toList = (env.set name value).bindings) :
      Represents (env.set name value) ⟨bindings, scope.index⟩ := by
    refine ⟨h.keyed.set name value, hbindings, fun other slot => (h.slot other slot).trans ?_⟩
    rw [h.keyed.bindings_set, List.getElem?_map]
    cases env.bindings[slot]? with
    | none => simp
    | some binding =>
      by_cases hname : SameName binding.name name <;> simp [hname]
  refine ⟨_, rfl, ?_⟩
  dsimp only
  split
  · next slot hslot =>
    obtain ⟨found, hfound, hname⟩ := (h.slot name slot).1 hslot
    refine hslots ?_
    rw [Array.toList_modify, h.bindings, h.keyed.bindings_set]
    refine List.ext_getElem? fun other => ?_
    rw [List.getElem?_modify, List.getElem?_map]
    cases hother : env.bindings[other]? with
    | none => simp
    | some binding =>
      by_cases hsame : slot = other
      · subst hsame
        obtain rfl : found = binding := Option.some.inj (hfound.symm.trans hother)
        simp [hname]
      · have hdifferent : ¬SameName binding.name name := fun heq =>
          hsame (Option.some.inj (hslot.symm.trans ((h.slot name other).2 ⟨binding, hother, heq⟩)))
        simp [hsame, hdifferent]
  · next hnone =>
    refine hslots ?_
    rw [h.bindings, h.keyed.bindings_set]
    refine (map_store_of_absent (fun binding hbinding hname => ?_) value).symm
    have hsome := (h.isSome_slot? name).2 ⟨binding, hbinding, hname⟩
    rw [hnone] at hsome
    cases hsome

end Represents

/-! ## Rows of operations -/

/-- An operation on a scope. -/
inductive ScopeOp where
  | declare (name : String) (ty : Ty) (line : Nat)
  | define (name : String) (ty : Ty) (value : Value) (constant : Bool) (line : Nat)
  | store (name : String) (value : Value)

namespace ScopeOp

def run (env : Environment) : ScopeOp → Except RuntimeError Environment
  | .declare name ty line => env.declare name ty line
  | .define name ty value constant line => env.define name ty value constant line
  | .store name value => .ok (env.set name value)

def runIndexed : ScopeOp → EStateM RuntimeError IndexedScope Unit
  | .declare name ty line => IndexedScope.insert ⟨name, ty, .uninitialized, false⟩ line
  | .define name ty value constant line => IndexedScope.insert ⟨name, ty, value, constant⟩ line
  | .store name value => IndexedScope.set name value

/-- The name, the type and the constant flag that an operation declares. -/
def declared? : ScopeOp → Option (String × Ty × Bool)
  | .declare name ty _ => some (name, ty, false)
  | .define name ty _ constant _ => some (name, ty, constant)
  | .store _ _ => none

end ScopeOp

/-- The scope after operations, each of which leaves it as it is if it fails. -/
def Environment.after (env : Environment) (ops : List ScopeOp) : Environment :=
  ops.foldl (fun env op => (op.run env).toOption.getD env) env

/-- The scope with an index after the same operations, each of which leaves what it leaves. -/
def IndexedScope.after (scope : IndexedScope) (ops : List ScopeOp) : IndexedScope :=
  ops.foldl (fun scope op =>
    match op.runIndexed scope with
    | .ok _ scope' | .error _ scope' => scope') scope

/-- What is declared by a row of operations: of the declarations of one name only the first. -/
def declaredBy (ops : List ScopeOp) : List (String × Ty × Bool) :=
  (ops.filterMap ScopeOp.declared?).eraseDupsBy fun d d' => Text.nameKey d.1 == Text.nameKey d'.1

theorem Represents.run {env : Environment} {scope : IndexedScope} (h : Represents env scope)
    (op : ScopeOp) :
    match op.run env with
    | .ok env' => ∃ scope', op.runIndexed scope = .ok () scope' ∧ Represents env' scope'
    | .error e => op.runIndexed scope = .error e scope := by
  cases op with
  | declare name ty line => exact h.insert ⟨name, ty, .uninitialized, false⟩ line
  | define name ty value constant line => exact h.insert ⟨name, ty, value, constant⟩ line
  | store name value => exact h.set name value

theorem Represents.after {env : Environment} {scope : IndexedScope} (h : Represents env scope)
    (ops : List ScopeOp) : Represents (env.after ops) (scope.after ops) := by
  induction ops generalizing env scope with
  | nil => exact h
  | cons op ops ih =>
    have hop := h.run op
    refine ih ?_
    cases hrun : op.run env with
    | error e =>
      rw [hrun] at hop
      dsimp only at hop ⊢
      rw [hrun, hop]
      exact h
    | ok env' =>
      rw [hrun] at hop
      obtain ⟨scope', hindexed, hrepresents⟩ := hop
      dsimp only
      rw [hrun, hindexed]
      exact hrepresents

/-! ## The order of declarations -/

/-- A last element with a key that is there already is a duplicate; the first of a key stays. -/
theorem eraseDupsBy_concat {α : Type} (key : α → String) (as : List α) (a : α) :
    (as ++ [a]).eraseDupsBy (fun b c => key b == key c) =
      if key a ∈ (as.eraseDupsBy fun b c => key b == key c).map key then
        as.eraseDupsBy fun b c => key b == key c
      else (as.eraseDupsBy fun b c => key b == key c) ++ [a] := by
  induction hlength : as.length using Nat.strongRecOn generalizing as with
  | ind length ih =>
  subst hlength
  cases as with
  | nil => simp [List.eraseDupsBy_cons]
  | cons b as =>
    have hshorter : (as.filter fun c => (key c == key b) = false).length < (b :: as).length :=
      Nat.lt_succ_of_le (List.length_filter_le ..)
    have hrest := ih _ hshorter _ rfl
    rw [List.cons_append, List.eraseDupsBy_cons, List.eraseDupsBy_cons, List.filter_append]
    by_cases hab : key a = key b
    · simp [hab]
    · have hlast : [a].filter (fun c => (key c == key b) = false) = [a] := by simp [hab]
      rw [hlast, hrest, List.map_cons]
      simp only [List.mem_cons, hab, false_or]
      split <;> rfl

/-- What stays of a declaration: the name as it was spelled, the type and the constant flag. -/
def Binding.declared (binding : Binding) : String × Ty × Bool :=
  (binding.name, binding.ty, binding.constant)

theorem Environment.Keyed.declared_insert {env : Environment} (h : env.Keyed) (binding : Binding)
    (line : Nat) :
    ((env.insert binding line).toOption.getD env).bindings.map Binding.declared =
      if Text.nameKey binding.name ∈
          (env.bindings.map Binding.declared).map fun d => Text.nameKey d.1 then
        env.bindings.map Binding.declared
      else env.bindings.map Binding.declared ++ [binding.declared] := by
  have hmem : Text.nameKey binding.name ∈
      ((env.bindings.map Binding.declared).map fun d => Text.nameKey d.1) ↔
        (env.get? binding.name).isSome := by
    rw [h.get?_eq_find?, List.find?_isSome]
    simp [Binding.declared]
  simp only [hmem]
  cases hinsert : env.insert binding line with
  | error e =>
    have hsome : (env.get? binding.name).isSome = true := by
      unfold Environment.insert at hinsert
      split at hinsert
      · next hget => rw [hget]; rfl
      · cases hinsert
    rw [if_pos hsome]
    rfl
  | ok env' =>
    rw [if_neg (by simp [(Environment.insert_eq hinsert).1])]
    have hbindings := Environment.bindings_insert hinsert
    simp [Except.toOption, hbindings]

theorem Environment.Keyed.declared_set {env : Environment} (h : env.Keyed) (name : String)
    (value : Value) :
    (env.set name value).bindings.map Binding.declared = env.bindings.map Binding.declared := by
  rw [h.bindings_set, List.map_map]
  refine List.map_congr_left fun binding _ => ?_
  by_cases hname : SameName binding.name name <;> simp [hname, Binding.declared]

theorem declared_after (ops : List ScopeOp) :
    (Environment.empty.after ops).bindings.map Binding.declared = declaredBy ops := by
  induction ops using List.reverseRecOn with
  | nil => rfl
  | append_singleton ops op ih =>
    have hkeyed := (represents_empty.after ops).keyed
    have hafter : Environment.empty.after (ops ++ [op]) =
        (op.run (Environment.empty.after ops)).toOption.getD (Environment.empty.after ops) := by
      simp [Environment.after]
    have hfirst (d : String × Ty × Bool) := eraseDupsBy_concat (fun d => Text.nameKey d.1)
      (ops.filterMap ScopeOp.declared?) d
    rw [hafter, declaredBy, List.filterMap_append]
    unfold declaredBy at ih
    cases op with
    | store name value =>
      have hskipped : [ScopeOp.store name value].filterMap ScopeOp.declared? = [] := rfl
      rw [hskipped, List.append_nil]
      exact (hkeyed.declared_set name value).trans ih
    | declare name ty line =>
      have hinsert := hkeyed.declared_insert ⟨name, ty, .uninitialized, false⟩ line
      rw [ih] at hinsert
      exact hinsert.trans (hfirst (name, ty, false)).symm
    | define name ty value constant line =>
      have hinsert := hkeyed.declared_insert ⟨name, ty, value, constant⟩ line
      rw [ih] at hinsert
      exact hinsert.trans (hfirst (name, ty, constant)).symm

/-! ## The index and the order -/

/-- How the index and the order of a scope go together with its bindings. -/
structure Indexed (env : Environment) (scope : IndexedScope) : Prop where
  bindings : scope.bindings.toList = env.bindings
  /-- The place that the index gives to a name is that of its only binding. -/
  slot : ∀ (name : String) (slot : Nat), scope.slot? name = some slot →
    ∃ h : slot < scope.bindings.size, SameName scope.bindings[slot].name name ∧
      ∀ (other : Nat) (h : other < scope.bindings.size),
        SameName scope.bindings[other].name name → other = slot
  found : ∀ (name : String), (∃ binding ∈ env.bindings, SameName binding.name name) →
    (scope.slot? name).isSome
  distinct : (env.bindings.map fun binding => Text.nameKey binding.name).Nodup
  get : ∀ name : String, scope.get? name = env.get? name
  snapshot : ∀ name : String, env.snapshot.get? name = (scope.get? name).map Binding.value
  /-- A declaration fails if its key is there, and then changes nothing. -/
  refused : ∀ (binding : Binding) (line : Nat),
    (∃ bound ∈ env.bindings, SameName bound.name binding.name) →
      env.insert binding line = .error ⟨.alreadyDeclared binding.name, line⟩ ∧
        IndexedScope.insert binding line scope =
          .error ⟨.alreadyDeclared binding.name, line⟩ scope
  accepted : ∀ (binding : Binding) (line : Nat),
    (∀ bound ∈ env.bindings, ¬SameName bound.name binding.name) →
      ∃ env' scope', env.insert binding line = .ok env' ∧
        IndexedScope.insert binding line scope = .ok () scope'

theorem Represents.indexed {env : Environment} {scope : IndexedScope} (h : Represents env scope) :
    Indexed env scope where
  bindings := h.bindings
  slot name slot hslot := by
    have hplace {other : Nat} (hother : other < scope.bindings.size) :
        env.bindings[other]? = some scope.bindings[other] := by
      rw [← h.getElem?_bindings, Array.getElem?_eq_getElem hother]
    obtain ⟨binding, hbinding, hname⟩ := (h.slot name slot).1 hslot
    rw [← h.getElem?_bindings] at hbinding
    obtain ⟨hsize, rfl⟩ := Array.getElem?_eq_some_iff.1 hbinding
    refine ⟨hsize, hname, fun other hother hsame => ?_⟩
    have hother' := (h.slot name other).2 ⟨_, hplace hother, hsame⟩
    exact Option.some.inj (hother'.symm.trans hslot)
  found name := (h.isSome_slot? name).2
  distinct := h.keyed.names_distinct
  get := h.get?
  snapshot name := by
    rw [h.get?, h.keyed.get?_eq_find?, Snapshot.get?, Environment.snapshot, List.find?_map,
      Option.map_map]
    rfl
  refused binding line hbound := by
    have hsome := (h.isSome_slot? binding.name).2 hbound
    refine ⟨?_, by rw [IndexedScope.insert_eq, if_pos hsome]⟩
    rw [← h.isSome_get?] at hsome
    obtain ⟨found, hfound⟩ := Option.isSome_iff_exists.1 hsome
    rw [Environment.insert, hfound]
  accepted binding line hfree := by
    have hnone : env.get? binding.name = none := by
      rw [← Option.not_isSome_iff_eq_none, h.isSome_get?, h.isSome_slot?]
      rintro ⟨bound, hbound, hname⟩
      exact hfree bound hbound hname
    have hinsert : env.insert binding line =
        .ok ⟨env.entries ++ [(Text.nameKey binding.name, binding)]⟩ := by
      rw [Environment.insert, hnone]
    have hindexed := h.insert binding line
    rw [hinsert] at hindexed
    obtain ⟨scope', hscope, -⟩ := hindexed
    exact ⟨_, scope', hinsert, hscope⟩

/-- The index and the order of a scope stay consistent with its bindings over every row of
declarations and stores. -/
theorem scope_indexed (ops : List ScopeOp) :
    Indexed (Environment.empty.after ops) (IndexedScope.empty.after ops) ∧
      (Environment.empty.after ops).bindings.map Binding.declared = declaredBy ops :=
  ⟨(represents_empty.after ops).indexed, declared_after ops⟩

end Pseudocode
