import Pseudocode.Machine.Call
import Pseudocode.Proofs.Content
import Pseudocode.Proofs.Likeness.Tree
import Pseudocode.Proofs.Value.Placed

/-! # Scopes and machines that are alike

A scope finds its bindings by their keys, so two scopes are alike if the same is known of the same
keys, in the same order; the bindings may be spelled differently. Machines are alike if their scopes
are, if they know routines that correspond to each other, and if they are the same otherwise.

* `Environment.contents`: what is known of the keys of a scope.
* `Machine.Alike`: machines that no names can tell apart.
* `Routine.agree_frame`: the scopes of two calls. -/

namespace Pseudocode
set_option autoImplicit false

/-! ## Scopes -/

/-- The type, the value and the constancy of a binding. -/
def Binding.content (binding : Binding) : Ty × Value × Bool :=
  (binding.ty, binding.value, binding.constant)

/-- What is known of the key of an entry. -/
def entryContent (entry : String × Binding) : String × Ty × Value × Bool :=
  (entry.1, entry.2.content)

/-- What is known of the keys of a scope, in the order of declaration. -/
def Environment.contents (env : Environment) : List (String × Ty × Value × Bool) :=
  env.entries.map entryContent

/-- The same is known of the same keys. -/
def Environment.Alike (env env' : Environment) : Prop := env.contents = env'.contents

namespace Environment

theorem get?_content (env : Environment) (name : String) :
    (env.get? name).map Binding.content = env.contents.lookup (Text.nameKey name) := by
  unfold get? contents
  induction env.entries with
  | nil => rfl
  | cons entry rest ih =>
    obtain ⟨key, binding⟩ := entry
    have hentry : entryContent (key, binding) = (key, binding.content) := rfl
    rw [List.map_cons, hentry, List.lookup_cons, List.lookup_cons]
    cases Text.nameKey name == key with
    | true => rfl
    | false => exact ih

theorem setEntry_contents {entries entries' : List (String × Binding)}
    (h : entries.map entryContent = entries'.map entryContent) (key : String) (value : Value) :
    (setEntry key value entries).map entryContent =
      (setEntry key value entries').map entryContent := by
  induction entries generalizing entries' with
  | nil =>
    cases entries' with
    | nil => rfl
    | cons => cases h
  | cons entry rest ih =>
    cases entries' with
    | nil => cases h
    | cons entry' rest' =>
      obtain ⟨k, binding⟩ := entry
      obtain ⟨k', binding'⟩ := entry'
      obtain ⟨hentry, hrest⟩ := List.cons.inj h
      obtain ⟨rfl, hcontent⟩ := Prod.mk.inj hentry
      have hty : binding.ty = binding'.ty := congrArg Prod.fst hcontent
      have hconstant : binding.constant = binding'.constant := congrArg (·.2.2) hcontent
      rw [setEntry, setEntry]
      split
      · simp only [List.map_cons, entryContent, Binding.content, hty, hconstant]
        exact congrArg (List.cons _) hrest
      · rw [List.map_cons, List.map_cons, ih hrest, hentry]

namespace Alike
variable {env env' : Environment} (h : env.Alike env')
include h

theorem get? {name name' : String} (hname : SameName name name') :
    (env.get? name).map Binding.content = (env'.get? name').map Binding.content := by
  have hkey : Text.nameKey name = Text.nameKey name' := hname
  rw [get?_content, get?_content, h, hkey]

theorem set {name name' : String} (hname : SameName name name') (value : Value) :
    (env.set name value).Alike (env'.set name' value) := by
  have hkey : Text.nameKey name = Text.nameKey name' := hname
  unfold Environment.set
  rw [hkey]
  exact setEntry_contents h (Text.nameKey name') value

theorem agree_insert {line : Nat → Nat → Prop} {binding binding' : Binding} {l l' : Nat}
    (hname : SameName binding.name binding'.name) (hcontent : binding.content = binding'.content)
    (hline : line l l') :
    Agree line Environment.Alike (env.insert binding l) (env'.insert binding' l') := by
  have hget := h.get? hname
  have hkey : Text.nameKey binding.name = Text.nameKey binding'.name := hname
  unfold insert
  cases hfound : env.get? binding.name with
  | some found =>
    cases hfound' : env'.get? binding'.name with
    | some found' => exact .error rfl rfl hline
    | none =>
      rw [hfound, hfound'] at hget
      cases hget
  | none =>
    cases hfound' : env'.get? binding'.name with
    | some found' =>
      rw [hfound, hfound'] at hget
      cases hget
    | none =>
      refine .ok ?_
      unfold Environment.Alike contents at h ⊢
      simp only [List.map_append, List.map_cons, List.map_nil, entryContent, h, hkey, hcontent]

theorem agree_define {line : Nat → Nat → Prop} {name name' : String} {l l' : Nat}
    (hname : SameName name name') (ty : Ty) (value : Value) (constant : Bool) (hline : line l l') :
    Agree line Environment.Alike (env.define name ty value constant l)
      (env'.define name' ty value constant l') := by
  unfold define
  exact h.agree_insert hname rfl hline

theorem agree_declare {line : Nat → Nat → Prop} {name name' : String} {l l' : Nat}
    (hname : SameName name name') (ty : Ty) (hline : line l l') :
    Agree line Environment.Alike (env.declare name ty l) (env'.declare name' ty l') := by
  unfold declare
  exact h.agree_insert hname rfl hline

end Alike
end Environment

/-- Names to be declared that correspond to each other. -/
structure DeclaredAlike (line : Nat → Nat → Prop) (declared declared' : String × Ty × Nat) :
    Prop where
  name : SameName declared.1 declared'.1
  ty : declared.2.1 = declared'.2.1
  line : line declared.2.2 declared'.2.2

section Declarations
variable {line : Nat → Nat → Prop}

theorem VarDecl.Alike.flatten {declarations declarations' : List VarDecl}
    (h : List.Forall₂ (VarDecl.Alike line) declarations declarations') :
    List.Forall₂ (DeclaredAlike line) (VarDecl.flatten declarations)
      (VarDecl.flatten declarations') := by
  unfold VarDecl.flatten
  induction h with
  | nil => exact .nil
  | cons hfirst _ ih =>
    rw [List.flatMap_cons, List.flatMap_cons]
    refine List.rel_append ?_ ih
    rw [List.forall₂_map_left_iff, List.forall₂_map_right_iff]
    exact hfirst.names.imp fun _ _ hname => ⟨hname, hfirst.ty, hfirst.line⟩

theorem Environment.Alike.agree_declareAll {env env' : Environment} (h : env.Alike env')
    {declared declared' : List (String × Ty × Nat)}
    (hdeclared : List.Forall₂ (DeclaredAlike line) declared declared') :
    Agree line Environment.Alike (env.declareAll declared) (env'.declareAll declared') := by
  induction hdeclared generalizing env env' with
  | nil => exact .ok h
  | @cons first first' _ _ hfirst _ ih =>
    obtain ⟨name, ty, l⟩ := first
    obtain ⟨name', ty', l'⟩ := first'
    obtain rfl : ty = ty' := hfirst.ty
    exact (h.agree_declare hfirst.name ty hfirst.line).bind fun _ _ hnext => ih hnext

/-! ## The scopes of calls -/

section Calls
variable {routine routine' : Routine} (halike : Routine.Alike line routine routine') {l l' : Nat}
  (hline : line l l')
include halike hline

theorem Routine.agree_bindParams {params params' : List Param}
    (hparams : List.Forall₂ Param.Alike params params') (values : List Value)
    {env env' : Environment} (h : env.Alike env') :
    Agree line Environment.Alike (routine.bindParams l env (params.zip values))
      (routine'.bindParams l' env' (params'.zip values)) := by
  induction hparams generalizing values env env' with
  | nil => exact .ok h
  | @cons param param' _ _ hparam _ ih =>
    cases values with
    | nil => exact .ok h
    | cons value values =>
      have hconvert := value.agree_coerce param.ty (.param param.name routine.name)
        (.param param'.name routine'.name) hline
      rw [List.zip_cons_cons, List.zip_cons_cons, bindParams, bindParams, ← hparam.ty]
      refine hconvert.bind fun converted _ hconverted => ?_
      subst hconverted
      exact (h.agree_define hparam.name _ _ false halike.line).bind fun _ _ hnext => ih values hnext

theorem Routine.agree_frame (values : List Value) :
    Agree line Environment.Alike (routine.frame values l) (routine'.frame values l') := by
  have hempty : Environment.empty.Alike .empty := rfl
  have hparams := Routine.agree_bindParams halike hline halike.params values hempty
  exact hparams.bind fun _ _ h => h.agree_declareAll (VarDecl.Alike.flatten halike.locals)

end Calls
end Declarations

/-! ## Machines -/

/-- Two entries for one key, which is that of the name of the first routine. -/
structure KnownAlike (known : Routine → Routine → Prop) (entry entry' : String × Routine) :
    Prop where
  key : entry.1 = Text.nameKey entry.2.name
  same : entry.1 = entry'.1
  known : known entry.2 entry'.2

/-- Two machines that are the same but for the spelling of names and the routines they know, which
correspond to each other. -/
structure Machine.Alike (known : Routine → Routine → Prop) (m m' : Machine) : Prop where
  globals : m.globals.Alike m'.globals
  frames : List.Forall₂ Environment.Alike m.frames m'.frames
  routines : List.Forall₂ (KnownAlike known) m.routines m'.routines
  inputs : m.inputs = m'.inputs
  output : m.output = m'.output
  steps : m.steps = m'.steps
  limits : m.limits = m'.limits
  clock : m.clock = m'.clock

namespace Machine

theorem alike_initial (known : Routine → Routine → Prop) (inputs : List String) (limits : Limits)
    (clock : Clock) :
    Machine.Alike known (.initial inputs limits clock) (.initial inputs limits clock) :=
  ⟨rfl, .nil, .nil, rfl, rfl, rfl, rfl, rfl⟩

namespace Alike
variable {known : Routine → Routine → Prop} {m m' : Machine} (h : Machine.Alike known m m')
include h

theorem overdue? : m.overdue? = m'.overdue? := by
  unfold Machine.overdue? Machine.elapsed
  rw [h.limits, h.clock, h.steps]

theorem scope : m.scope.Alike m'.scope := by
  have hframes := h.frames
  unfold Machine.scope
  generalize m.frames = frames at hframes
  generalize m'.frames = frames' at hframes
  cases hframes with
  | nil => exact h.globals
  | cons hframe _ => exact hframe

theorem content? {name name' : String} (hname : SameName name name') :
    m.content? name = m'.content? name' := by
  have hscope := h.scope.get? hname
  have hglobals := h.globals.get? hname
  have hempty : m.frames.isEmpty = m'.frames.isEmpty := by
    rw [Bool.eq_iff_iff, List.isEmpty_iff_length_eq_zero, List.isEmpty_iff_length_eq_zero,
      h.frames.length_eq]
  unfold Machine.content? Machine.resolve?
  cases hfound : m.scope.get? name with
  | some binding =>
    cases hfound' : m'.scope.get? name' with
    | some binding' =>
      rw [hfound, hfound'] at hscope
      exact hscope
    | none =>
      rw [hfound, hfound'] at hscope
      cases hscope
  | none =>
    cases hfound' : m'.scope.get? name' with
    | some binding' =>
      rw [hfound, hfound'] at hscope
      cases hscope
    | none =>
      have hfilter (found : Option Binding) :
          (found.filter (·.constant)).map Binding.content =
            (found.map Binding.content).filter (·.2.2) := by
        cases found with
        | none => rfl
        | some binding =>
          cases hconstant : binding.constant <;> simp [Option.filter, Binding.content, hconstant]
      dsimp only
      rw [hempty]
      split
      · rfl
      · exact (hfilter _).trans (hglobals ▸ (hfilter _).symm)

theorem routine? {name name' : String} (hname : SameName name name') :
    Option.Rel (fun r r' => known r r' ∧ SameName r.name name) (m.routine? name)
      (m'.routine? name') := by
  have hkey : Text.nameKey name = Text.nameKey name' := hname
  have hroutines := h.routines
  unfold Machine.routine?
  rw [← hkey]
  generalize m.routines = entries at hroutines
  generalize m'.routines = entries' at hroutines
  induction hroutines with
  | nil => exact .none
  | cons hentry _ ih =>
    rw [List.lookup_cons, List.lookup_cons, ← hentry.same]
    split
    · rename_i hfound
      have hentryKey := eq_of_beq hfound
      exact .some ⟨hentry.known, hentry.key.symm.trans hentryKey.symm⟩
    · exact ih

theorem set {name name' : String} (hname : SameName name name') (value : Value) :
    Machine.Alike known (m.set name value) (m'.set name' value) := by
  have hframes := h.frames
  unfold Machine.set
  cases hm : m.frames with
  | nil =>
    rw [hm] at hframes
    rw [List.forall₂_nil_left_iff.1 hframes]
    exact { h with globals := h.globals.set hname value, frames := .nil }
  | cons frame rest =>
    rw [hm] at hframes
    obtain ⟨frame', rest', hframe, hrest, hm'⟩ := List.forall₂_cons_left_iff.1 hframes
    rw [hm']
    exact { h with frames := .cons (hframe.set hname value) hrest }

theorem push {frame frame' : Environment} (hframe : frame.Alike frame') :
    Machine.Alike known (m.push frame) (m'.push frame') :=
  { h with frames := .cons hframe h.frames }

theorem pop : Machine.Alike known m.pop m'.pop := by
  have htail := List.forall₂_drop 1 h.frames
  rw [List.drop_one, List.drop_one] at htail
  exact { h with frames := htail }

end Alike
end Machine
end Pseudocode
