import Pseudocode.Proofs.Change

/-! # Changes that computations do not see

A change of the machine commutes with a computation that does the same on the changed machine, and
to which the change can as well be made afterwards. Most primitives look at the names, the routines
and the output alone; what is changed beside those, the inputs, the budget and the clock, commutes
with all of them.

* `Run.Commutes`: a change commutes with a computation.
* `Machine.Spares`: a change of nothing but the inputs, the budget and the clock.
* `Primitive.run_commutes`: the primitives that use neither of these. -/

namespace Pseudocode
set_option autoImplicit false
open Run

/-- The same end, on a machine that is changed once more. -/
def Ending.map {α : Type} (f : Machine → Machine) : Ending α → Ending α
  | .ok a m => .ok a (f m)
  | .error e m => .error e (f m)

namespace Run
variable {α β : Type} {f : Machine → Machine}

def Commutes (f : Machine → Machine) (c : Run α) : Prop :=
  ∀ m : Machine, c (f m) = Ending.map f (c m)

/-! ## Sequences -/

/-- A sequence at one machine: the second part only matters where the first one leads. -/
theorem commutes_bind_at {c : Run β} {next : β → Run α} {m : Machine}
    (hfirst : c (f m) = Ending.map f (c m))
    (hnext : ∀ b m', c m = .ok b m' → next b (f m') = Ending.map f (next b m')) :
    (c >>= next) (f m) = Ending.map f ((c >>= next) m) := by
  cases hm : c m with
  | ok b m' =>
    rw [hm] at hfirst
    rw [bind_ok hm, bind_ok hfirst]
    exact hnext b m' hm
  | error e m' =>
    rw [hm] at hfirst
    rw [bind_error hm, bind_error hfirst]
    rfl

theorem Commutes.bind {c : Run β} {next : β → Run α} (hc : Commutes f c)
    (hnext : ∀ b, Commutes f (next b)) : Commutes f (c >>= next) :=
  fun m => commutes_bind_at (hc m) fun b m' _ => hnext b m'

theorem Commutes.lift (result : Except RuntimeError α) : Commutes f (lift result) := by
  intro m
  cases result <;> rfl

end Run

/-! ## Changes of the inputs, the budget and the clock -/

/-- A change that leaves the names, the routines and the output alone, and is the same whatever
these are. -/
structure Machine.Spares (f : Machine → Machine) : Prop where
  withGlobals (m : Machine) (globals : Environment) : f { m with globals } = { f m with globals }
  withFrames (m : Machine) (frames : List Environment) : f { m with frames } = { f m with frames }
  withRoutines (m : Machine) (routines : List (String × Routine)) :
    f { m with routines } = { f m with routines }
  withOutput (m : Machine) (output : String) : f { m with output } = { f m with output }

section Spares
variable {f : Machine → Machine} (hf : Machine.Spares f)
include hf

namespace Machine.Spares

theorem globals (m : Machine) : (f m).globals = m.globals := by
  have hsame : f m = { f m with globals := m.globals } := hf.withGlobals m m.globals
  rw [hsame]

theorem frames (m : Machine) : (f m).frames = m.frames := by
  have hsame : f m = { f m with frames := m.frames } := hf.withFrames m m.frames
  rw [hsame]

theorem routines (m : Machine) : (f m).routines = m.routines := by
  have hsame : f m = { f m with routines := m.routines } := hf.withRoutines m m.routines
  rw [hsame]

theorem output (m : Machine) : (f m).output = m.output := by
  have hsame : f m = { f m with output := m.output } := hf.withOutput m m.output
  rw [hsame]

theorem resolve? (m : Machine) (name : String) : (f m).resolve? name = m.resolve? name := by
  unfold Machine.resolve? Machine.scope
  rw [hf.globals, hf.frames]

theorem routine? (m : Machine) (name : String) : (f m).routine? name = m.routine? name := by
  unfold Machine.routine?
  rw [hf.routines]

theorem set (m : Machine) (name : String) (value : Value) :
    f (m.set name value) = (f m).set name value := by
  unfold Machine.set
  rw [hf.globals]
  split
  · rename_i hm
    have hglobals := hf.withGlobals m (m.globals.set name value)
    simp only [hglobals, (hf.frames m).trans hm]
  · rename_i frame rest hm
    have hframes := hf.withFrames m (frame.set name value :: rest)
    simp only [hframes, (hf.frames m).trans hm, hf.globals]

end Machine.Spares

/-! ## Elementary computations -/

theorem commutes_resolve (name : String) (line : Nat) : Commutes f (resolve name line) := by
  intro m
  unfold resolve
  rw [get_bind, get_bind, hf.resolve?]
  cases m.resolve? name <;> rfl

theorem commutes_resolveVariable (name : String) (line : Nat) :
    Commutes f (resolveVariable name line) := by
  refine (commutes_resolve hf name line).bind fun binding => ?_
  split <;> exact fun _ => rfl

theorem commutes_load (name : String) (line : Nat) : Commutes f (load name line) := by
  refine (commutes_resolve hf name line).bind fun binding => ?_
  split <;> exact fun _ => rfl

theorem commutes_assign (name : String) (value : Value) (line : Nat) :
    Commutes f (assign name value line) := by
  refine (commutes_resolveVariable hf name line).bind fun binding => ?_
  refine (Commutes.lift _).bind fun converted => ?_
  intro m
  change EStateM.Result.ok () ((f m).set name converted) = .ok () (f (m.set name converted))
  rw [hf.set]

/-- Whether the reading of an input commutes is decided where the input is taken. -/
theorem commutes_readInto_at {name : String} {line : Nat} {m : Machine}
    (htake : takeInput name line (f m) = Ending.map f (takeInput name line m)) :
    readInto name line (f m) = Ending.map f (readInto name line m) := by
  refine commutes_bind_at (commutes_resolveVariable hf name line m) fun binding m' hresolve => ?_
  have hkept : m' = m := by
    rcases resolveVariable_cases name line m with ⟨e, he⟩ | ⟨_, hok, -, -⟩
    · rw [he] at hresolve
      cases hresolve
    · rw [hok] at hresolve
      cases hresolve
      rfl
  subst hkept
  refine commutes_bind_at htake fun raw m'' _ => ?_
  have hstore : Commutes f (do
      let value ← lift (Value.ofInput raw binding.ty name line)
      assign name value line) :=
    (Commutes.lift _).bind fun value => commutes_assign hf name value line
  exact hstore m''

theorem commutes_checkCounter (name : String) (line : Nat) :
    Commutes f (checkCounter name line) := by
  refine (commutes_resolveVariable hf name line).bind fun binding => ?_
  split <;> exact fun _ => rfl

theorem commutes_writeLine (text : String) : Commutes f (writeLine text) := by
  intro m
  have hwritten := hf.withOutput m (m.output ++ text ++ "\n")
  change EStateM.Result.ok () { f m with output := (f m).output ++ text ++ "\n" } = _
  rw [hf.output, ← hwritten]
  rfl

theorem commutes_register (routine : Routine) :
    Commutes f (Program.registerRoutines [routine]) := by
  intro m
  unfold Program.registerRoutines
  rw [get_bind, get_bind, hf.routine?]
  cases m.routine? routine.name with
  | some found => rfl
  | none =>
    have hadded := hf.withRoutines m (m.routines ++ [(Text.nameKey routine.name, routine)])
    rw [hf.routines, ← hadded]
    rfl

theorem commutes_changeGlobals (change : Environment → Except RuntimeError Environment) :
    Commutes f (Program.changeGlobals change) := by
  intro m
  unfold Program.changeGlobals
  rw [get_bind, get_bind, hf.globals]
  cases change m.globals with
  | error e => rfl
  | ok globals =>
    have hchanged := hf.withGlobals m globals
    change EStateM.Result.ok () { f m with globals } = _
    rw [← hchanged]
    rfl

theorem commutes_bindConstant (constant : ConstDecl) (value : Value) :
    Commutes f (Program.bindConstant constant value) := by
  unfold Program.bindConstant
  cases constant.ty?.or value.ty? with
  | none => exact fun _ => rfl
  | some ty => exact (Commutes.lift _).bind fun converted => commutes_changeGlobals hf _

end Spares

/-! ## Primitives -/

namespace Primitive

/-- Whether a primitive uses the inputs or the budget. -/
def draws {α : Type} : Primitive α → Bool
  | chargeCall _ _ | chargeTurn _ | readInto _ _ => true
  | _ => false

/-- A primitive that uses neither inputs nor budget does the same whatever these are. -/
theorem run_commutes {f : Machine → Machine} (hf : Machine.Spares f) {α : Type} (p : Primitive α)
    (h : p.draws = false) : Commutes f p.run := by
  cases p with
  | give result => exact .lift result
  | load name line => exact commutes_load hf name line
  | findRoutine name =>
    intro m
    change EStateM.Result.ok ((f m).routine? name) (f m) = _
    rw [hf.routine?]
    rfl
  | assign name value line => exact commutes_assign hf name value line
  | checkCounter name line => exact commutes_checkCounter hf name line
  | writeLine text => exact commutes_writeLine hf text
  | register routine => exact commutes_register hf routine
  | define constant value => exact commutes_bindConstant hf constant value
  | declare name ty line => exact commutes_changeGlobals hf (·.declare name ty line)
  | chargeCall | chargeTurn | readInto => cases h

end Primitive
end Pseudocode
