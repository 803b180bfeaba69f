import Mathlib.Data.List.Forall2
import Pseudocode.Proofs.BlockEnd
import Pseudocode.Proofs.Budget

/-! # Type soundness

At every moment of every run, the scopes of the main program and of all active calls are sound, and
the parameters of each active call have values of their types. Values come into a scope by
assignments, inputs, counters of loops, parameters and constants; `Change` and `Routine.frame` are
all of these, so it is enough to look at them.

* `typed`: the invariant.
* `Action`, `Reachable`: what can be asked of a machine, and the machines that come of it.
* `eval_ne_uninitialized`, `Routine.result_ty`: what comes out of expressions and functions.
* `store_sound`: all of it together. -/

namespace Pseudocode
set_option autoImplicit false
open Run

/-! ## The invariant -/

/-- The main program and the active calls have sound scopes, each call its own one with all its
parameters. -/
structure Machine.Typed (calls : List Routine) (m : Machine) : Prop where
  globals : m.globals.Sound
  frames : List.Forall₂ Routine.Scope calls m.frames

theorem Machine.typed_initial (inputs : List String) (limits : Limits) (clock : Clock) :
    (Machine.initial inputs limits clock).Typed [] :=
  ⟨Environment.sound_empty, .nil⟩

theorem Machine.Typed.set {calls : List Routine} {m : Machine} {name : String} {binding : Binding}
    {value : Value} (h : m.Typed calls) (hget : m.scope.get? name = some binding)
    (hty : value.ty? = some binding.ty) : (m.set name value).Typed calls := by
  obtain ⟨hglobals, hframes⟩ := h
  unfold Machine.set
  unfold Machine.scope at hget
  cases hm : m.frames with
  | nil =>
    rw [hm] at hframes hget
    exact ⟨hglobals.set hget hty, hframes⟩
  | cons frame rest =>
    rw [hm] at hframes hget
    cases hframes with
    | cons hframe hrest =>
      have hsound := hframe.sound.set hget hty
      exact ⟨hglobals, .cons ⟨hsound, fun param hparam =>
        (hframe.params param hparam).set hget hty⟩ hrest⟩

theorem Change.typed {place : Place} {calls : List Routine} {m m' : Machine}
    (hchange : Change place m m') (h : m.Typed calls) : m'.Typed calls := by
  cases hchange with
  | store hget _ hty => exact h.set hget hty
  | bind hinsert hsound => exact ⟨h.globals.insert hinsert hsound, h.frames⟩
  | count | take | write | register => exact ⟨h.globals, h.frames⟩

/-- Machines stay typed, whatever is done on them. -/
def typed : Invariant .program where
  holds := Machine.Typed
  change _ hchange h := hchange.typed h
  push {routine values _ frame calls m} hframe h :=
    ⟨h.globals, .cons (Routine.scope_frame values.2 hframe) h.frames⟩
  pop {routine calls m} h := by
    obtain ⟨hglobals, hframes⟩ := h
    refine ⟨hglobals, ?_⟩
    unfold Machine.pop
    cases hm : m.frames with
    | nil =>
      rw [hm] at hframes
      cases hframes
    | cons frame rest =>
      rw [hm] at hframes
      cases hframes with
      | cons _ hrest => exact hrest

/-! ## What comes out of expressions -/

/-- Calls that yield a value yield one that is initialized. -/
def YieldsValues (invoke : Invoke) : Prop :=
  ∀ {routine : Routine} {values : List Value} {line : Nat} {m m' : Machine} {value : Value},
    invoke routine values line m = .ok (some value) m' → value ≠ .uninitialized

theorem load_ne_uninitialized {name : String} {line : Nat} {m m' : Machine} {value : Value}
    (h : load name line m = .ok value m') : value ≠ .uninitialized := by
  obtain ⟨binding, m₁, -, hvalue⟩ := bind_eq_ok h
  split at hvalue
  · cases hvalue
  · rename_i hne
    cases hvalue
    exact hne

theorem logic_ne_uninitialized {op : BinOp} {left right : Run Value} {line : Nat} {m m' : Machine}
    {value : Value} (h : logic op left right line m = .ok value m') : value ≠ .uninitialized := by
  obtain ⟨first, m₁, -, hvalue⟩ := bind_eq_ok h
  split at hvalue
  · cases hvalue
    simp
  · obtain ⟨second, m₂, -, hsecond⟩ := bind_eq_ok hvalue
    cases hsecond
    simp

theorem callNamed_ne_uninitialized {invoke : Invoke} (hinvoke : YieldsValues invoke)
    {name : String} {count : Nat} {arguments : Run (List Value)} {line : Nat} {m m' : Machine}
    {value : Value}
    (h : callNamed invoke name count arguments line m = .ok (some value) m') :
    value ≠ .uninitialized := by
  unfold callNamed at h
  cases hbuiltin : Builtin.find? name with
  | some builtin =>
    simp only [hbuiltin] at h
    obtain ⟨values, m₁, -, hvalues⟩ := bind_eq_ok h
    split at hvalues
    · rw [map_eq_pure_bind] at hvalues
      obtain ⟨result, m₂, hlift, hresult⟩ := bind_eq_ok hvalues
      cases hresult
      exact Builtin.apply_ne_uninitialized (lift_eq_ok hlift)
    · cases hvalues
  | none =>
    simp only [hbuiltin, get_bind] at h
    cases hroutine : m.routine? name with
    | none =>
      simp only [hroutine] at h
      cases h
    | some routine =>
      simp only [hroutine] at h
      split at h
      · obtain ⟨values, m₁, -, hcall⟩ := bind_eq_ok h
        exact hinvoke hcall
      · cases h

/-- What a call yields in an expression is what the call by name yields. -/
theorem callForValue_eq_ok {invoke : Invoke} {name : String} {count : Nat}
    {arguments : Run (List Value)} {line : Nat} {m m' : Machine} {value : Value}
    (h : callForValue invoke name count arguments line m = .ok value m') :
    callNamed invoke name count arguments line m = .ok (some value) m' := by
  simp only [callForValue, get_bind] at h
  rcases hkind : (m.routine? name).map Routine.kind with _ | (_ | _) <;> simp only [hkind] at h
  case some.procedure => cases h
  all_goals
    obtain ⟨result, m₁, hnamed, hresult⟩ := bind_eq_ok h
    cases result with
    | none => cases hresult
    | some found =>
      cases hresult
      exact hnamed

/-- Each kind of expression ends with an operation that has a value. -/
theorem eval_ne_uninitialized {invoke : Invoke} (hinvoke : YieldsValues invoke) {expr : Expr}
    {m m' : Machine} {value : Value} (h : eval invoke expr m = .ok value m') :
    value ≠ .uninitialized := by
  cases expr with
  | literal literal line =>
    rw [eval] at h
    cases h
    exact literal.toValue_ne_uninitialized
  | var name line =>
    rw [eval] at h
    exact load_ne_uninitialized h
  | unary op operand line =>
    rw [eval] at h
    obtain ⟨a, m₁, -, hlift⟩ := bind_eq_ok h
    exact Value.unary_ne_uninitialized (lift_eq_ok hlift)
  | binary left op right line =>
    rw [eval] at h
    split at h
    · exact logic_ne_uninitialized h
    · obtain ⟨a, m₁, -, hright⟩ := bind_eq_ok h
      obtain ⟨b, m₂, -, hlift⟩ := bind_eq_ok hright
      exact Value.binary_ne_uninitialized (lift_eq_ok hlift)
  | call name arguments line =>
    rw [eval] at h
    exact callNamed_ne_uninitialized hinvoke (callForValue_eq_ok h)

/-! ## What comes out of calls -/

/-- A value that a block returns with is initialized. -/
def Flow.Initialized : Flow → Prop
  | .returned (some value) => value ≠ .uninitialized
  | _ => True

theorem execBlock_initialized {invoke : Invoke} (hinvoke : YieldsValues invoke)
    (block : List Statement) : EndsIn Flow.Initialized (execBlock invoke block) := by
  refine execBlock_ends trivial invoke block fun _ value line _ => ?_
  cases value with
  | none => exact .pure trivial
  | some value =>
    intro m flow m' h
    rw [exec] at h
    obtain ⟨result, m₁, hvalue, hflow⟩ := bind_eq_ok h
    cases hflow
    exact eval_ne_uninitialized hinvoke hvalue

namespace Routine
variable {routine : Routine} {flow : Flow} {line : Nat}

theorem result_ty {ty : Ty} {result : Option Value} (hkind : routine.kind = .function)
    (hty : routine.returnType? = some ty) (h : routine.result flow line = .ok result) :
    ∃ value, result = some value ∧ value.ty? = some ty := by
  unfold Routine.result at h
  rw [hkind, hty] at h
  match flow, h with
  | .returned (some value), h =>
    cases hcoerce : value.coerce ty (.result routine.name) line with
    | error e =>
      simp only [hcoerce] at h
      cases h
    | ok converted =>
      simp only [hcoerce] at h
      cases h
      exact ⟨converted, rfl, Value.coerce_ty hcoerce⟩

/-- A function yields a value, also without a type. -/
theorem result_function {result : Option Value} (hkind : routine.kind = .function)
    (h : routine.result flow line = .ok result) : ∃ value, result = some value := by
  cases hty : routine.returnType? with
  | some ty =>
    obtain ⟨value, hvalue, -⟩ := result_ty hkind hty h
    exact ⟨value, hvalue⟩
  | none =>
    unfold Routine.result at h
    rw [hkind, hty] at h
    match flow, h with
    | .returned (some value), h =>
      cases h
      exact ⟨value, rfl⟩

theorem result_ne_uninitialized {value : Value} (hflow : flow.Initialized)
    (h : routine.result flow line = .ok (some value)) : value ≠ .uninitialized := by
  cases hkind : routine.kind with
  | procedure =>
    unfold Routine.result at h
    rw [hkind] at h
    cases h
  | function =>
    cases hty : routine.returnType? with
    | some ty =>
      obtain ⟨_, heq, hvalue⟩ := result_ty hkind hty h
      cases heq
      exact Value.ne_uninitialized_of_ty hvalue
    | none =>
      unfold Routine.result at h
      rw [hkind, hty] at h
      match flow, hflow, h with
      | .returned (some value), hflow, h =>
        cases h
        exact hflow

end Routine

/-- A call that succeeds has a result that its routine allows, after its body came to its end. -/
theorem invoke_eq_ok {depth : Nat} {routine : Routine} {values : List Value} {line : Nat}
    {m m' : Machine} {result : Option Value}
    (h : invoke depth routine values line m = .ok result m') :
    ∃ inner flow ended below, below + 1 = depth ∧
      execBlock (invoke below) routine.body inner = .ok flow ended ∧
      routine.result flow line = .ok result := by
  cases depth with
  | zero =>
    obtain ⟨_, _, -, hfail⟩ := bind_eq_ok h
    cases hfail
  | succ depth =>
    rw [invoke_succ] at h
    obtain ⟨frame, m₁, -, hbody⟩ := bind_eq_ok h
    obtain ⟨flow, m₂, hframe, hlift⟩ := bind_eq_ok hbody
    rw [inFrame_apply] at hframe
    cases hrun : execBlock (invoke depth) routine.body (m₁.push frame) with
    | error e ended =>
      rw [hrun] at hframe
      cases hframe
    | ok flow' ended =>
      rw [hrun] at hframe
      cases hframe
      exact ⟨_, flow, ended, depth, rfl, hrun, lift_eq_ok hlift⟩

/-- The induction is on the number of calls that may still become active. -/
theorem invoke_yieldsValues (depth : Nat) : YieldsValues (invoke depth) := by
  induction depth with
  | zero =>
    intro routine values line m m' value h
    obtain ⟨_, _, _, below, hbelow, -⟩ := invoke_eq_ok h
    cases hbelow
  | succ depth ih =>
    intro routine values line m m' value h
    obtain ⟨inner, flow, ended, below, hbelow, hbody, hresult⟩ := invoke_eq_ok h
    obtain rfl := Nat.succ.inj hbelow
    have hflow := execBlock_initialized ih _ inner flow ended hbody
    exact Routine.result_ne_uninitialized hflow hresult

/-- A call by name that reaches a routine yields a result of it. -/
theorem callNamed_result {depth : Nat} {name : String} {count : Nat}
    {arguments : Run (List Value)} {line : Nat} {m m' : Machine} {routine : Routine}
    {result : Option Value} (hbuiltin : Builtin.find? name = none)
    (hroutine : m.routine? name = some routine)
    (h : callNamed (invoke depth) name count arguments line m = .ok result m') :
    ∃ flow, routine.result flow line = .ok result := by
  simp only [callNamed, hbuiltin, get_bind, hroutine] at h
  split at h
  · obtain ⟨values, m₁, -, hcall⟩ := bind_eq_ok h
    obtain ⟨_, flow, _, _, -, -, hresult⟩ := invoke_eq_ok hcall
    exact ⟨flow, hresult⟩
  · cases h

/-! ## Sessions -/

/-- What can be asked of a machine. -/
inductive Action where
  | run (program : Program)
  | execBlock (statements : List Statement)
  | eval (expr : Expr)
  | assign (name : String) (value : Value) (line : Nat)
  | declare (name : String) (ty : Ty) (line : Nat)
  | call (name : String) (arguments : List Expr) (line : Nat)

namespace Action

/-- The type of what comes of an action. -/
def Answer : Action → Type
  | run _ | assign _ _ _ | declare _ _ _ => Unit
  | execBlock _ => Flow
  | eval _ => Value
  | call _ _ _ => Option Value

def perform : (action : Action) → Run action.Answer
  | run program => program.run
  | execBlock statements => runBlock statements
  | eval expr => expr.run
  | assign name value line => Run.assign name value line
  | declare name ty line => Program.changeGlobals (·.declare name ty line)
  | call name arguments line => runCall name arguments line

def plan : (action : Action) → Plan action.Answer
  | run program => program.plan
  | execBlock statements => planBlock statements
  | eval expr => expr.plan
  | assign name value line => .prim (.assign name value line)
  | declare name ty line => .prim (.declare name ty line)
  | call name arguments line =>
    Plan.callNamed name arguments.length (planAll arguments) line

theorem perform_eq_denote (action : Action) (m : Machine) :
    action.perform m = action.plan.denote (invoke m.depthLeft) m := by
  cases action with
  | run program => exact program.run_eq_denote m
  | execBlock statements => exact runBlock_eq_denote statements m
  | eval expr => exact expr.run_eq_denote m
  | assign name value line => rfl
  | declare name ty line => rfl
  | call name arguments line => exact runCall_eq_denote name arguments line m

end Action

/-- A machine that comes of a new one by actions, whether these succeed or fail. -/
inductive Reachable : Machine → Prop where
  | initial (inputs : List String) (limits : Limits) (clock : Clock) :
      Reachable (.initial inputs limits clock)
  | act {m : Machine} (action : Action) :
      Reachable m → Reachable (Ending.machine (action.perform m))

theorem Reachable.typed {m : Machine} (h : Reachable m) : m.Typed [] := by
  induction h with
  | initial inputs limits clock => exact Machine.typed_initial inputs limits clock
  | @act m action _ ih =>
    rw [action.perform_eq_denote]
    have hkeeps : Pseudocode.typed.Keeps [] (action.plan.denote (invoke m.depthLeft)) :=
      Invariant.denote (Invariant.invoke m.depthLeft []) action.plan action.plan.within_program
    exact hkeeps m ih

/-- Reachable machines are typed, also at every moment of a further action, inside of whatever calls
are active then. Expressions that succeed have a value, and functions one of their type. -/
theorem store_sound :
    (∀ m : Machine, Reachable m → m.Typed [] ∧
      ∀ (action : Action) (k : Nat),
        (action.plan.after k m).machine.Typed (action.plan.after k m).calls) ∧
    (∀ (expr : Expr) (m m' : Machine) (value : Value),
      expr.run m = .ok value m' → value ≠ .uninitialized) ∧
    (∀ (name : String) (arguments : List Expr) (line : Nat) (m : Machine) (routine : Routine)
        (ty : Ty), Builtin.find? name = none → m.routine? name = some routine →
        routine.kind = .function → routine.returnType? = some ty →
      (∀ (m' : Machine) (result : Option Value), runCall name arguments line m = .ok result m' →
        ∃ value, result = some value ∧ value.ty? = some ty) ∧
      ∀ (m' : Machine) (value : Value), (Expr.call name arguments line).run m = .ok value m' →
        value.ty? = some ty) := by
  refine ⟨fun m hm => ⟨hm.typed, fun action k => ?_⟩, ?_, ?_⟩
  · have hafter : typed.holds (action.plan.after k m).calls (action.plan.after k m).machine :=
      Invariant.after action.plan action.plan.within_program hm.typed k
    exact hafter
  · intro expr m m' value h
    exact eval_ne_uninitialized (invoke_yieldsValues m.depthLeft) h
  · intro name arguments line m routine ty hbuiltin hroutine hkind hty
    have hnamed (m' : Machine) (result : Option Value)
        (h : runCall name arguments line m = .ok result m') :
        ∃ value, result = some value ∧ value.ty? = some ty := by
      obtain ⟨flow, hresult⟩ := callNamed_result hbuiltin hroutine h
      exact Routine.result_ty hkind hty hresult
    refine ⟨hnamed, fun m' value h => ?_⟩
    change eval (invoke m.depthLeft) (.call name arguments line) m = _ at h
    rw [eval] at h
    obtain ⟨found, hfound, hty⟩ := hnamed m' (some value) (callForValue_eq_ok h)
    cases hfound
    exact hty

/-- A function of type `REEL` whose body returns an `ENTIER`, called after its program ran. -/
theorem store_sound_half :
    let half : Routine :=
      ⟨.function, "f", [], some .reel, [], [.ret (some (.literal (.integer 1) 1)) 1], 1⟩
    let m := { Machine.initial [] .standard .steady with routines := [(Text.nameKey "f", half)] }
    m.Typed [] ∧ ∃ value,
      runCall "f" [] 2 m = .ok (some value) { m with steps := 1 } ∧ value.ty? = some .reel ∧
      (Expr.call "f" [] 2).run m = .ok value { m with steps := 1 } ∧ value ≠ .uninitialized := by
  intro half m
  have hm : Reachable m := .act (.run ⟨none, [], [], [half], []⟩) (.initial [] .standard .steady)
  have hresult : runCall "f" [] 2 m =
      .ok (some (.real (Reel.ofEntier 1))) { m with steps := 1 } := rfl
  have hvalue : (Expr.call "f" [] 2).run m =
      .ok (.real (Reel.ofEntier 1)) { m with steps := 1 } := rfl
  obtain ⟨value, hsome, hty⟩ :=
    (store_sound.2.2 "f" [] 2 m half .reel (by decide) rfl rfl rfl).1 _ _ hresult
  cases hsome
  exact ⟨(store_sound.1 m hm).1, _, hresult, hty, hvalue, store_sound.2.1 _ m _ _ hvalue⟩

end Pseudocode
