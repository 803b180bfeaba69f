import Pseudocode.Proofs.Content
import Pseudocode.Proofs.Plan.Parallel

/-! # Calls do not see the variables of their caller

A call works in a scope of its own, and of the main program it sees the constants. So on two
machines that agree on those, on what is left of the budget and on the inputs, a call does the same,
whatever the variables of the main program and of the active calls hold and whatever was written
before.

* `Machine.SameForCalls`: two machines that a call cannot tell apart.
* `Effect.on`: what a call has done so far, as a change of the machine it was called on.
* `calls_same_everywhere`: both calls have the same result and the same effect. -/

namespace Pseudocode
set_option autoImplicit false
open Run

/-- The type and the value of a constant. -/
def Environment.constant? (env : Environment) (name : String) : Option (Ty × Value) :=
  ((env.get? name).filter (·.constant)).map fun binding => (binding.ty, binding.value)

/-- Two machines that a call cannot tell apart. Without a limit of time their clocks may be any. -/
structure Machine.SameForCalls (m m' : Machine) : Prop where
  routines : ∀ name, m'.routine? name = m.routine? name
  limits : m'.limits = m.limits
  clock : m.limits.timeout ≠ none → m'.clock = m.clock
  steps : m'.steps = m.steps
  inputs : m'.inputs = m.inputs
  supplied : m'.supplied = m.supplied
  frames : m'.frames.length = m.frames.length
  constants : ∀ name, m'.globals.constant? name = m.globals.constant? name

/-! ## Inside of a call -/

/-- What a call has done so far: the text it wrote, the inputs it left and the count of steps. -/
structure Effect where
  text : String
  inputs : List String
  steps : Nat

/-- A machine after an effect, while the given scopes are open. -/
def Effect.on (done : Effect) (opened : List Environment) (m : Machine) : Machine :=
  { m with
    frames := opened ++ m.frames
    inputs := done.inputs
    output := m.output ++ done.text
    steps := done.steps }

/-- Two machines that came of two others by one effect, inside of so many calls. -/
def Machine.Inside (before before' : Machine) (depth : Nat) (m m' : Machine) : Prop :=
  ∃ (opened : List Environment) (done : Effect), opened.length = depth ∧
    m = done.on opened before ∧ m' = done.on opened before'

section Inside
variable {before before' : Machine} (same : before.SameForCalls before') {depth : Nat}
  {m m' : Machine}

/-- The name is bound in the innermost scope, or it is that of a constant of the main program. -/
theorem Effect.content?_on (done : Effect) (scope : Environment) (opened : List Environment)
    (m : Machine) (name : String) :
    (done.on (scope :: opened) m).content? name =
      match scope.get? name with
      | some binding => some (binding.ty, binding.value, binding.constant)
      | none => (m.globals.constant? name).map fun (ty, value) => (ty, value, true) := by
  have hresolve : (done.on (scope :: opened) m).resolve? name =
      match scope.get? name with
      | some binding => some binding
      | none => (m.globals.get? name).filter (·.constant) := rfl
  unfold Machine.content? Environment.constant?
  rw [hresolve]
  cases scope.get? name with
  | some binding => rfl
  | none =>
    cases hfound : (m.globals.get? name).filter (·.constant) with
    | none => rfl
    | some binding =>
      have hconstant : binding.constant = true := (Option.filter_eq_some_iff.1 hfound).2
      simp only [Option.map_some, hconstant]

include same

theorem Machine.Inside.content? (h : before.Inside before' (depth + 1) m m') (name : String) :
    m'.content? name = m.content? name := by
  obtain ⟨opened, done, hlength, rfl, rfl⟩ := h
  obtain ⟨scope, rest, rfl⟩ := List.exists_cons_of_length_eq_add_one hlength
  rw [done.content?_on, done.content?_on, same.constants]

theorem mirrors_load (name : String) (line : Nat) :
    Mirrors (before.Inside before' (depth + 1)) (load name line) := by
  exact (Alike.load (fun h => (h.content? same name).symm) (fun _ => rfl) fun _ => rfl).mirrors

theorem mirrors_target (name : String) (line : Nat) :
    Mirrors (before.Inside before' (depth + 1)) (target name line) := by
  exact (Alike.target (fun h => (h.content? same name).symm) (fun _ => rfl) fun _ => rfl).mirrors

/-- A value is stored in the innermost of the scopes that were opened, the same one on both
machines. -/
theorem mirrors_assign (name : String) (value : Value) (line : Nat) :
    Mirrors (before.Inside before' (depth + 1)) (assign name value line) := by
  rw [assign_eq]
  refine (mirrors_target same name line).bind fun ty => (Mirrors.lift _).bind fun converted => ?_
  rintro _ _ ⟨opened, done, hlength, rfl, rfl⟩
  obtain ⟨scope, rest, rfl⟩ := List.exists_cons_of_length_eq_add_one hlength
  exact .ok () ⟨scope.set name converted :: rest, done, hlength, rfl, rfl⟩

theorem mirrors_takeInput (name : String) (line : Nat) :
    Mirrors (before.Inside before' depth) (takeInput name line) := by
  rintro _ _ ⟨opened, ⟨text, inputs, steps⟩, hlength, rfl, rfl⟩
  cases inputs with
  | nil =>
    have hfail : takeInput name line (Effect.on ⟨text, [], steps⟩ opened before') =
        .error ⟨.inputExhausted name before.supplied, line⟩
          (Effect.on ⟨text, [], steps⟩ opened before') :=
      same.supplied ▸ rfl
    rw [hfail]
    exact .error _ ⟨opened, ⟨text, [], steps⟩, hlength, rfl, rfl⟩
  | cons raw rest => exact .ok raw ⟨opened, ⟨text, rest, steps⟩, hlength, rfl, rfl⟩

theorem mirrors_readInto (name : String) (line : Nat) :
    Mirrors (before.Inside before' (depth + 1)) (readInto name line) := by
  rw [readInto_eq]
  refine (mirrors_target same name line).bind fun ty => ?_
  refine (mirrors_takeInput same name line).bind fun raw => ?_
  exact (Mirrors.lift _).bind fun value => mirrors_assign same name value line

theorem mirrors_checkCounter (name : String) (line : Nat) :
    Mirrors (before.Inside before' (depth + 1)) (checkCounter name line) := by
  rw [checkCounter_eq]
  exact (mirrors_target same name line).bind fun ty => .ite (.pure ()) (.fail _ _)

omit same

theorem mirrors_writeLine (text : String) :
    Mirrors (before.Inside before' depth) (writeLine text) := by
  rintro _ _ ⟨opened, done, hlength, rfl, rfl⟩
  have hwrite (m : Machine) :
      { done.on opened m with output := m.output ++ done.text ++ text ++ "\n" } =
        Effect.on { done with text := done.text ++ text ++ "\n" } opened m := by
    unfold Effect.on
    simp only [String.append_assoc]
  exact .ok () ⟨opened, _, hlength, hwrite before, hwrite before'⟩

theorem mirrors_countStep : Mirrors (before.Inside before' depth) countStep := by
  rintro _ _ ⟨opened, done, hlength, rfl, rfl⟩
  refine .ok () ⟨opened, ⟨done.text, done.inputs, if done.steps < maxCount then done.steps + 1
    else done.steps⟩, hlength, ?_, ?_⟩ <;>
  · change (if done.steps < maxCount then _ else _) = _
    split <;> rfl

include same

theorem mirrors_primitive {α : Type} (p : Primitive α) (hp : p.charges = false)
    (hplace : Place.statement.covers p.place = true) :
    Mirrors (before.Inside before' (depth + 1)) p.run := by
  cases p with
  | give result => exact .lift result
  | load name line => exact mirrors_load same name line
  | findRoutine name =>
    refine .read (f := Pure.pure) (·.routine? name) ?_ fun found => .pure found
    rintro _ _ ⟨opened, done, hlength, rfl, rfl⟩
    exact same.routines name
  | assign name value line => exact mirrors_assign same name value line
  | checkCounter name line => exact mirrors_checkCounter same name line
  | readInto name line => exact mirrors_readInto same name line
  | writeLine text => exact mirrors_writeLine text
  | chargeCall name line => cases hp
  | chargeTurn line => cases hp
  | register routine => cases hplace
  | define constant value => cases hplace
  | declare name ty line => cases hplace

/-- At the same count of steps the time is up on both machines or on neither. -/
theorem Machine.SameForCalls.overdue?_on (done : Effect) (opened : List Environment) :
    (done.on opened before').overdue? = (done.on opened before).overdue? := by
  have hoverdue (m : Machine) : (done.on opened m).overdue? =
      m.limits.timeout.filter fun given => given.nanos < (m.clock done.steps).nanos := rfl
  rw [hoverdue, hoverdue, same.limits]
  cases htime : before.limits.timeout with
  | none => rfl
  | some given => rw [same.clock (by rw [htime]; exact nofun)]

/-- One call on two machines, and all that happens inside of it. -/
def insideCalls : Parallel where
  related := before.Inside before'
  limits := by
    rintro depth _ _ ⟨opened, done, hlength, rfl, rfl⟩
    exact same.limits
  steps := by
    rintro depth _ _ ⟨opened, done, hlength, rfl, rfl⟩
    rfl
  overdue? := by
    rintro depth _ _ ⟨opened, done, hlength, rfl, rfl⟩
    exact same.overdue?_on done opened
  frames := by
    rintro depth _ _ ⟨opened, done, hlength, rfl, rfl⟩
    simp only [Effect.on, List.length_append, same.frames]
  count depth := mirrors_countStep
  primitive _ _ p := mirrors_primitive same p
  push := by
    rintro depth _ _ frame ⟨opened, done, hlength, rfl, rfl⟩
    exact ⟨frame :: opened, done, congrArg (· + 1) hlength, rfl, rfl⟩
  pop := by
    rintro depth _ _ ⟨opened, done, hlength, rfl, rfl⟩
    obtain ⟨scope, rest, rfl⟩ := List.exists_cons_of_length_eq_add_one hlength
    exact ⟨rest, done, Nat.succ.inj hlength, rfl, rfl⟩

end Inside

/-! ## Calls -/

/-- The end of a computation with the given result. -/
def Ending.of {α : Type} : Except RuntimeError α → Machine → Ending α
  | .ok a, m => .ok a m
  | .error e, m => .error e m

theorem evalAll_literals (invoke : Invoke) (literals : List (Literal × Nat)) :
    evalAll invoke (literals.map fun literal => .literal literal.1 literal.2) =
      pure (literals.map fun literal => literal.1.toValue) := by
  induction literals with
  | nil => rfl
  | cons first rest ih =>
    rw [List.map_cons, evalAll, eval, ih]
    rfl

theorem Machine.SameForCalls.inside {m m' : Machine} (h : m.SameForCalls m') :
    m.Inside m' 0 m m' := by
  have hsame : m' = Effect.on ⟨"", m.inputs, m.steps⟩ [] m' := by
    unfold Effect.on
    rw [String.append_empty, ← h.inputs, ← h.steps]
    rfl
  have hself : m = Effect.on ⟨"", m.inputs, m.steps⟩ [] m := by
    unfold Effect.on
    rw [String.append_empty]
    rfl
  exact ⟨[], _, rfl, hself, hsame⟩

/-- A call with literal arguments has the same result on both machines, a value, nothing or the same
error. It writes the same text, leaves the same inputs and comes to the same count of steps, and
changes nothing else. -/
theorem calls_same_everywhere {m m' : Machine} (same : m.SameForCalls m') (name : String)
    (literals : List (Literal × Nat)) (line : Nat) :
    ∃ (result : Except RuntimeError (Option Value)) (text : String) (inputs : List String)
      (steps : Nat),
      runCall name (literals.map fun literal => .literal literal.1 literal.2) line m =
        Ending.of result { m with output := m.output ++ text, inputs, steps } ∧
      runCall name (literals.map fun literal => .literal literal.1 literal.2) line m' =
        Ending.of result { m' with output := m'.output ++ text, inputs, steps } := by
  have hroutine (m₁ m₁' : Machine) (h : m.Inside m' 0 m₁ m₁') :
      m₁'.routine? name = m₁.routine? name := by
    obtain ⟨opened, done, -, rfl, rfl⟩ := h
    exact same.routines name
  have hmirrors (depth : Nat) : Mirrors (m.Inside m' 0) (callNamed (invoke depth) name
      (literals.map fun literal => Expr.literal literal.1 literal.2).length
      (evalAll (invoke depth) (literals.map fun literal => .literal literal.1 literal.2)) line) := by
    rw [evalAll_literals]
    exact .callNamed name _ line hroutine (.pure _) fun routine values =>
      (insideCalls same).invoke depth routine values line
  have hmatches := hmirrors m.depthLeft m m' same.inside
  have hdepth : m'.depthLeft = m.depthLeft := (insideCalls same).depthLeft same.inside
  unfold runCall invokeHere
  simp only [bind_assoc, get_bind, pure_bind]
  rw [hdepth]
  generalize callNamed (invoke m.depthLeft) name _ _ line m = ending at hmatches ⊢
  generalize callNamed (invoke m.depthLeft) name _ _ line m' = ending' at hmatches ⊢
  cases hmatches with
  | ok result hinside =>
    obtain ⟨opened, done, hlength, rfl, rfl⟩ := hinside
    obtain rfl := List.length_eq_zero_iff.1 hlength
    exact ⟨.ok result, done.text, done.inputs, done.steps, rfl, rfl⟩
  | error e hinside =>
    obtain ⟨opened, done, hlength, rfl, rfl⟩ := hinside
    obtain rfl := List.length_eq_zero_iff.1 hlength
    exact ⟨.error e, done.text, done.inputs, done.steps, rfl, rfl⟩

/-- A procedure that reads, writes with a constant and then fails to assign to a variable of the
main program, called from two places: from one where there is such a variable and from one where
not. -/
theorem calls_same_everywhere_assignment :
    let body : List Statement := [.read ["v"] 2,
      .write [.binary (.var "v" 3) .mul (.var "k" 3) 3] 3, .assign "x" (.var "n" 4) 4]
    let routine : Routine :=
      ⟨.procedure, "p", [⟨"n", .entier⟩], none, [⟨["v"], .entier, 1⟩], body, 1⟩
    let two : Binding := ⟨"k", .entier, .integer 2, true⟩
    let one : Machine := { Machine.initial ["7"] .standard .steady with
      globals := ⟨[("k", two), ("x", ⟨"x", .entier, .integer 5, false⟩)]⟩
      frames := [⟨[("y", ⟨"y", .entier, .uninitialized, false⟩)]⟩]
      routines := [("p", routine)] }
    let other : Machine := { Machine.initial ["7"] .standard .steady with
      globals := ⟨[("z", ⟨"z", .chaine, .uninitialized, false⟩), ("k", { two with name := "K" })]⟩
      frames := [.empty]
      routines := [("p", routine)]
      output := "before" }
    one.SameForCalls other ∧
    runCall "P" [.literal (.integer 1) 9] 9 one = .error ⟨.undeclaredVariable "x", 4⟩
      { one with output := "14\n", inputs := [], steps := 1 } ∧
    ∃ result text inputs steps,
      runCall "P" [.literal (.integer 1) 9] 9 one =
        Ending.of result { one with output := one.output ++ text, inputs, steps } ∧
      runCall "P" [.literal (.integer 1) 9] 9 other =
        Ending.of result { other with output := other.output ++ text, inputs, steps } := by
  intro body routine two one other
  have hconstants (name : String) :
      other.globals.constant? name = one.globals.constant? name := by
    simp only [Environment.constant?, Environment.get?, one, other, List.lookup_cons]
    generalize Text.nameKey name = key
    by_cases hk : key = "k"
    · subst hk
      rfl
    · rw [beq_false_of_ne hk]
      -- the other two names are those of variables, which a call does not see
      cases key == "x" <;> cases key == "z" <;> rfl
  have hsame : one.SameForCalls other :=
    ⟨fun _ => rfl, rfl, fun _ => rfl, rfl, rfl, rfl, rfl, hconstants⟩
  exact ⟨hsame, by rfl, calls_same_everywhere hsame "P" [(.integer 1, 9)] 9⟩

end Pseudocode
