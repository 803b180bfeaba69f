import Pseudocode.Proofs.Budget
import Pseudocode.Proofs.Plan.Discipline
import Pseudocode.Proofs.Scope.History
import Pseudocode.Proofs.Undisturbed

/-! # What a run declares

A program declares its constants and then its variables, one after the other, and nothing else ever
adds a name to the main program. So wherever a run stops, the names are the first of those that the
program declares, and they are all of them once its main block was entered. From then on, and in
between, bindings only become what `Binding.Becomes` allows.

* `Program.declared`: what a program declares, in order.
* `Run.Declares`: a computation adds names one by one, up to where it fails.
* `Program.run_declarations`: whole runs. -/

namespace Pseudocode
set_option autoImplicit false
open Run

/-! ## Declarations and bindings -/

/-- What is declared under a name. A constant may leave its type to its value. -/
structure Declared where
  name : String
  ty? : Option Ty
  constant : Bool

def ConstDecl.declared (constant : ConstDecl) : Declared := ⟨constant.name, constant.ty?, true⟩

def VarDecl.declared : String × Ty × Nat → Declared
  | (name, ty, _) => ⟨name, some ty, false⟩

/-- The constants and then the variables. -/
def Program.declared (program : Program) : List Declared :=
  program.constants.map ConstDecl.declared ++
    (VarDecl.flatten program.declarations).map VarDecl.declared

/-- The binding is what was declared. Without a declared type it has that of its value. -/
structure Declared.Binds (declared : Declared) (binding : Binding) : Prop where
  name : binding.name = declared.name
  ty : declared.ty?.or binding.value.ty? = some binding.ty
  constant : binding.constant = declared.constant

/-- A value of the type of the binding may be stored, whether the type was declared or not. -/
theorem Declared.Binds.store {declared : Declared} {binding : Binding} {value : Value}
    (h : declared.Binds binding) (hty : value.ty? = some binding.ty) :
    declared.Binds { binding with value } := by
  refine ⟨h.name, ?_, h.constant⟩
  have hbefore := h.ty
  cases hdeclared : declared.ty? with
  | none => exact hty
  | some ty =>
    rw [hdeclared] at hbefore
    exact hbefore

/-- The bindings are those of the given declarations, in order. -/
def Environment.Made (env : Environment) (declared : List Declared) : Prop :=
  List.Forall₂ Declared.Binds declared env.bindings

namespace Environment
variable {env env' : Environment} {names : List Declared}

theorem Made.insert {declared : Declared} {binding : Binding} {line : Nat} (h : env.Made names)
    (hinsert : env.insert binding line = .ok env') (hbinds : declared.Binds binding) :
    env'.Made (names ++ [declared]) := by
  unfold Made
  rw [bindings_insert hinsert]
  exact List.rel_append h (.cons hbinds .nil)

theorem Made.set {name : String} {binding : Binding} {value : Value} (h : env.Made names)
    (hget : env.get? name = some binding) (hty : value.ty? = some binding.ty) :
    (env.set name value).Made names := by
  have hstored := forall₂_set env name value
  unfold Made at h ⊢
  generalize (env.set name value).bindings = after at hstored ⊢
  generalize env.bindings = before at h hstored
  induction h generalizing after with
  | nil =>
    cases hstored
    exact .nil
  | cons hbinds _ ih =>
    cases hstored with
    | cons hnew hrest =>
      refine .cons ?_ (ih _ hrest)
      rcases hnew with rfl | ⟨hold, rfl⟩
      · exact hbinds
      · obtain rfl := Option.some.inj (hold.symm.trans hget)
        exact hbinds.store hty

end Environment

/-! ## Computations that declare -/

namespace Run

/-- A computation declares the given names after those that are there. If it fails, it has declared
the first few of them. -/
def Declares {α : Type} (c : Run α) (new : List Declared) : Prop :=
  ∀ (names : List Declared) (m : Machine), m.globals.Made names →
    Ending.Sorted (fun _ m' => m'.globals.Made (names ++ new))
      (fun _ m' => ∃ part, part <+: new ∧ m'.globals.Made (names ++ part)) (c m)

theorem Declares.bind {α β : Type} {c : Run β} {f : β → Run α} {first next : List Declared}
    (hc : Declares c first) (hf : ∀ b, Declares (f b) next) :
    Declares (c >>= f) (first ++ next) := by
  intro names m h
  have hfirst := hc names m h
  cases hm : c m with
  | error e m' =>
    rw [hm] at hfirst
    rw [bind_error hm]
    obtain ⟨part, hpart, hmade⟩ := hfirst
    exact ⟨part, hpart.trans (List.prefix_append first next), hmade⟩
  | ok b m' =>
    rw [hm] at hfirst
    rw [bind_ok hm]
    have hnext := hf b (names ++ first) m' hfirst
    rw [List.append_assoc] at hnext
    cases hm' : f b m' with
    | ok a m'' =>
      rw [hm'] at hnext
      exact hnext
    | error e m'' =>
      rw [hm'] at hnext
      obtain ⟨part, hpart, hmade⟩ := hnext
      rw [List.append_assoc] at hmade
      exact ⟨first ++ part, (List.prefix_append_right_inj first).2 hpart, hmade⟩

/-- What leaves the main program alone declares nothing. -/
theorem declares_nothing {α : Type} {c : Run α}
    (hc : ∀ m, (Ending.machine (c m)).globals = m.globals) : Declares c [] := by
  intro names m h
  have hsame := hc m
  have hnone : names ++ [] = names := List.append_nil names
  cases hm : c m with
  | ok a m' =>
    rw [hm] at hsame
    change m'.globals.Made (names ++ [])
    rw [hnone, show m'.globals = m.globals from hsame]
    exact h
  | error e m' =>
    rw [hm] at hsame
    refine ⟨[], List.prefix_refl [], ?_⟩
    rw [hnone, show m'.globals = m.globals from hsame]
    exact h

theorem declares_pure {α : Type} (a : α) : Declares (pure a : Run α) [] :=
  declares_nothing fun _ => rfl

theorem declares_insert {declared : Declared} {binding : Binding} (line : Nat)
    (hbinds : declared.Binds binding) :
    Declares (Program.changeGlobals (·.insert binding line)) [declared] := by
  intro names m h
  rcases changeGlobals_cases (·.insert binding line) m with ⟨e, he⟩ | ⟨globals, hinsert, hok⟩
  · rw [he]
    refine ⟨[], List.nil_prefix, ?_⟩
    rw [List.append_nil]
    exact h
  · rw [hok]
    exact h.insert hinsert hbinds

end Run

/-! ## The parts of a program -/

namespace Program

theorem declares_routines (routines : List Routine) : Declares (registerRoutines routines) [] := by
  refine declares_nothing fun m => ?_
  induction routines generalizing m with
  | nil => rfl
  | cons routine rest ih =>
    unfold registerRoutines
    rw [get_bind]
    cases m.routine? routine.name with
    | some found => rfl
    | none => exact ih _

theorem declares_value (expr : Expr) : Declares expr.run [] := by
  refine declares_nothing fun m => ?_
  rw [expr.run_eq_denote]
  exact (expr.plan.denote_undisturbed (expr.plan_within .expression) _ m).globals

theorem declares_constant (constant : ConstDecl) (value : Value) :
    Declares (bindConstant constant value) [constant.declared] := by
  have hfails (e : RuntimeError) : Declares (throw e : Run Unit) [constant.declared] := by
    intro names m h
    refine ⟨[], List.nil_prefix, ?_⟩
    rw [List.append_nil]
    exact h
  unfold bindConstant
  cases hty : constant.ty?.or value.ty? with
  | none => exact hfails _
  | some ty =>
    dsimp only
    cases hcoerce : value.coerce ty (.const constant.name) constant.line with
    | error e => exact hfails e
    | ok converted =>
      have hconverted := Value.coerce_ty hcoerce
      refine declares_insert constant.line ⟨rfl, ?_, rfl⟩
      change constant.ty?.or converted.ty? = some ty
      cases hdeclared : constant.ty? with
      | none => exact hconverted
      | some declared =>
        rw [hdeclared] at hty
        exact hty

theorem declares_constants (constants : List ConstDecl) :
    Declares (defineConstants constants) (constants.map ConstDecl.declared) := by
  induction constants with
  | nil => exact declares_pure ()
  | cons constant rest ih =>
    have hfirst : Declares (defineConstant constant) ([] ++ [constant.declared]) :=
      (declares_value constant.value).bind (declares_constant constant)
    exact hfirst.bind fun _ => ih

theorem declares_variables (names : List (String × Ty × Nat)) :
    Declares (declareVariables names) (names.map VarDecl.declared) := by
  induction names with
  | nil => exact declares_pure ()
  | cons first rest ih =>
    obtain ⟨name, ty, line⟩ := first
    have hfirst : Declares (changeGlobals (·.declare name ty line)) [⟨name, some ty, false⟩] :=
      declares_insert line ⟨rfl, rfl, rfl⟩
    exact hfirst.bind fun _ => ih

/-- What a program does before its main block. -/
def prepare (program : Program) : Run Unit := do
  registerRoutines program.routines
  defineConstants program.constants
  declareVariables (VarDecl.flatten program.declarations)

theorem run_eq_prepare (program : Program) :
    program.run = (do program.prepare; let _ ← runBlock program.statements) := by
  simp only [run, prepare, bind_assoc]

theorem declares_prepare (program : Program) : Declares program.prepare program.declared :=
  (declares_routines program.routines).bind fun _ =>
    (declares_constants program.constants).bind fun _ => declares_variables _

end Program

/-! ## The main block -/

/-- Statements make no declarations, and what they store in a variable is of its type. -/
def made (names : List Declared) : Invariant .statement where
  holds _ m := m.globals.Made names
  change := by
    intro calls place m m' hplace hchange h
    cases hchange with
    | @store _ name binding value hget _ hty =>
      unfold Machine.set
      unfold Machine.scope at hget
      cases hm : m.frames with
      | nil =>
        rw [hm] at hget
        exact h.set hget hty
      | cons frame rest => exact h
    | count | take | write => exact h
    | register | bind => cases calls <;> cases hplace
  push _ h := h
  pop h := h

/-- The names of the main program keep their keys, whatever is done. -/
def keyed : Invariant .program where
  holds _ m := m.globals.Keyed
  change := by
    intro calls place m m' _ hchange h
    cases hchange with
    | @store _ name _ value =>
      unfold Machine.set
      cases m.frames with
      | nil => exact h.set name value
      | cons frame rest => exact h
    | bind hinsert => exact h.insert hinsert
    | count | take | write | register => exact h
  push _ h := h
  pop h := h

/-- The names of the main program stay bound since an earlier machine, to what they may become. -/
def becoming (before : Machine) : Invariant .program where
  holds _ m := before.globals.Becomes m.globals
  change := by
    intro calls place m m' _ hchange h
    refine h.trans ?_
    cases hchange with
    | @store _ name binding value hget hconstant hty =>
      unfold Machine.set
      unfold Machine.scope at hget
      cases hm : m.frames with
      | nil =>
        rw [hm] at hget
        exact Environment.becomes_set hget hconstant (Value.ne_uninitialized_of_ty hty)
      | cons frame rest => exact .refl _
    | bind hinsert => exact Environment.becomes_insert hinsert
    | count | take | write | register => exact .refl _
  push _ h := h
  pop h := h

theorem made_block {names : List Declared} (statements : List Statement) {m : Machine}
    (h : m.globals.Made names) : (Ending.machine (runBlock statements m)).globals.Made names := by
  have hkeeps : (made names).Keeps [] ((planBlock statements).denote (invoke m.depthLeft)) :=
    Invariant.denote (Invariant.invoke m.depthLeft []) _ (planBlock_within rfl statements)
  rw [runBlock_eq_denote]
  exact hkeeps m h

namespace Program

/-- Whatever a run does in its main block, the names are those that were declared before. -/
theorem run_made (program : Program) {m m' : Machine} {names : List Declared}
    (hprepare : program.prepare m = .ok () m') (h : m'.globals.Made names) :
    (Ending.machine (program.run m)).globals.Made names := by
  have hblock := made_block program.statements h
  rw [run_eq_prepare, bind_ok hprepare]
  cases hm : runBlock program.statements m' with
  | ok flow m'' =>
    rw [hm] at hblock
    rw [bind_ok hm]
    exact hblock
  | error e m'' =>
    rw [hm] at hblock
    rw [bind_error hm]
    exact hblock

theorem run_keyed (program : Program) {m : Machine} (h : m.globals.Keyed) :
    (Ending.machine (program.run m)).globals.Keyed := by
  have hkeeps : keyed.Keeps [] (program.plan.denote (invoke m.depthLeft)) :=
    Invariant.denote (Invariant.invoke m.depthLeft []) _ program.plan_within
  rw [run_eq_denote]
  exact hkeeps m h

/-- At the end of a run, also of one that failed, the names of the main program are the first ones of
those that the program declares, and all of them if its main block was entered; no two of them have
the same key. From any moment of the run to any later one, names stay bound with their types, a
constant keeps its value, and a variable that has a value goes on having one. -/
theorem run_declarations (program : Program) (inputs : List String) (limits : Limits)
    (clock : Clock) :
    let start := Machine.initial inputs limits clock
    let last := (Ending.machine (program.run start)).globals
    (∃ part, part <+: program.declared ∧ last.Made part) ∧
    (∀ m, program.prepare start = .ok () m → last.Made program.declared) ∧
    (last.bindings.map fun binding => Text.nameKey binding.name).Nodup ∧
    ∀ (k j : Nat) (name : String) (old : Binding),
      (program.plan.after k start).machine.globals.get? name = some old →
        ∃ new, (program.plan.after (k + j) start).machine.globals.get? name = some new ∧
          old.Becomes new := by
  intro start last
  have hprepared := program.declares_prepare [] start .nil
  have hwhole (m : Machine) (hm : program.prepare start = .ok () m) :
      last.Made program.declared := by
    rw [hm] at hprepared
    exact program.run_made hm hprepared
  have hkeyed : last.Keyed := program.run_keyed Environment.keyed_empty
  refine ⟨?_, hwhole, hkeyed.keys ▸ hkeyed.distinct, fun k j => ?_⟩
  · cases hm : program.prepare start with
    | ok _ m => exact ⟨_, List.prefix_refl _, hwhole m hm⟩
    | error e m =>
      -- the run ended before its main block
      rw [hm] at hprepared
      have hlast : last = m.globals := by
        unfold last
        rw [run_eq_prepare, bind_error hm]
        rfl
      rw [hlast]
      exact hprepared
  · exact Invariant.since becoming (fun _ m => .refl m.globals) program.plan program.plan_within
      start k j

/-- A constant and two variables, of which one gets the value of the constant in the main block. -/
theorem run_declarations_copy :
    let program : Program := ⟨none, [⟨"k", none, .literal (.integer 2) 1, 1⟩],
      [⟨["x", "y"], .entier, 2⟩], [], [.assign "x" (.var "K" 3) 3]⟩
    let start := Machine.initial [] .standard .steady
    let two : Binding := ⟨"k", .entier, .integer 2, true⟩
    program.declared =
      [⟨"k", none, true⟩, ⟨"x", some .entier, false⟩, ⟨"y", some .entier, false⟩] ∧
    (∃ m, program.prepare start = .ok () m) ∧
    (Ending.machine (program.run start)).globals.Made program.declared ∧
    (program.plan.after 12 start).machine.globals.get? "K" = some two ∧
    ∃ new, (program.plan.after (12 + 40) start).machine.globals.get? "K" = some new ∧
      two.Becomes new := by
  intro program start two
  obtain ⟨-, hwhole, -, hbecomes⟩ := program.run_declarations [] .standard .steady
  have hdefined : (program.plan.after 12 start).machine.globals.get? "K" = some two := by rfl
  exact ⟨rfl, ⟨_, rfl⟩, hwhole _ rfl, hdefined, hbecomes 12 40 "K" two hdefined⟩

end Program
end Pseudocode
