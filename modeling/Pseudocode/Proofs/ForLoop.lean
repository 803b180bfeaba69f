import Pseudocode.Proofs.Scope.History
import Pseudocode.Proofs.Plan.Invariant
import Pseudocode.Proofs.TurnCount

/-! # Loops over integers

A loop over integers is the sequence of its turns for integers that are known before the first one:
those from the first bound on by the step that are not past the last bound. Neither the body nor the
end of the 64-bit range changes that sequence, and the variable can be assigned to in every turn.

* `Invariant.lasting`: names stay bound in the scope that statements run in, whatever they do.
* `forTurns_eq_forEach`: the loop of the machine, which adds and tests, is the sequence of turns.
* `exec_forLoop`: the whole statement. -/

namespace Pseudocode
set_option autoImplicit false
open Run

/-! ## Scopes that last -/

namespace Machine

/-- The scope below those of so many calls. -/
def scopeBelow (m : Machine) (calls : Nat) : Environment := (m.frames[calls]?).getD m.globals

theorem scopeBelow_zero (m : Machine) : m.scopeBelow 0 = m.scope := by
  rw [scopeBelow, scope, List.head?_eq_getElem?]

theorem scope_set (m : Machine) (name : String) (value : Value) :
    (m.set name value).scope = m.scope.set name value := by
  unfold set scope
  cases m.frames <;> rfl

theorem scopeBelow_set {m : Machine} {calls : Nat} (h : calls < m.frames.length) (name : String)
    (value : Value) : (m.set name value).scopeBelow (calls + 1) = m.scopeBelow (calls + 1) := by
  unfold set
  cases hframes : m.frames with
  | nil => simp [hframes] at h
  | cons frame rest => simp [scopeBelow, hframes]

end Machine

section Lasting
variable {before : Environment} {calls : List Routine} {m m' : Machine}

theorem lasting_change {place : Place} (hplace : (placeInside .statement calls).covers place = true)
    (hchange : Change place m m')
    (h : calls.length ≤ m.frames.length ∧ before.Becomes (m.scopeBelow calls.length)) :
    calls.length ≤ m'.frames.length ∧ before.Becomes (m'.scopeBelow calls.length) := by
  cases hchange with
  | count | take | write => exact h
  | @store _ name binding value hget hconstant hty =>
    cases calls with
    | nil =>
      refine ⟨Nat.zero_le _, h.2.trans ?_⟩
      rw [List.length_nil, Machine.scopeBelow_zero, Machine.scopeBelow_zero, Machine.scope_set]
      exact Environment.becomes_set hget hconstant (Value.ne_uninitialized_of_ty hty)
    | cons routine rest =>
      have hlength : (m.set name value).frames.length = m.frames.length := by
        unfold Machine.set
        cases m.frames <;> simp
      rw [hlength, List.length_cons, Machine.scopeBelow_set h.1]
      exact h
  | register | bind => cases calls <;> cases hplace

theorem lasting_pop
    (h : calls.length + 1 ≤ m.frames.length ∧ before.Becomes (m.scopeBelow (calls.length + 1))) :
    calls.length ≤ m.pop.frames.length ∧ before.Becomes (m.pop.scopeBelow calls.length) := by
  obtain ⟨hlength, hbecomes⟩ := h
  refine ⟨?_, ?_⟩
  · rw [Machine.pop, List.length_tail]
    omega
  · have hscope : m.pop.scopeBelow calls.length = m.scopeBelow (calls.length + 1) := by
      rw [Machine.scopeBelow, Machine.pop, List.getElem?_tail, Machine.scopeBelow]
    rw [hscope]
    exact hbecomes

end Lasting

/-- The names of an earlier scope stay bound below the active calls, to what they may become. -/
def Invariant.lasting (before : Environment) : Invariant .statement where
  holds calls m := calls.length ≤ m.frames.length ∧ before.Becomes (m.scopeBelow calls.length)
  change := lasting_change
  push := fun _ h => ⟨Nat.succ_le_succ h.1, h.2⟩
  pop := lasting_pop

theorem scope_becomes {α : Type} {c : Run α} {m m' : Machine} {a : α}
    (hc : (Invariant.lasting m.scope).Keeps [] c) (h : c m = .ok a m') :
    m.scope.Becomes m'.scope := by
  have hstart : (Invariant.lasting m.scope).holds [] m := by
    refine ⟨Nat.zero_le _, ?_⟩
    rw [List.length_nil, Machine.scopeBelow_zero]
    exact .refl _
  have hend := (hc m hstart).2
  rwa [h, List.length_nil, Machine.scopeBelow_zero] at hend

theorem keeps_block {inv : Invariant .statement} (depth : Nat) (block : List Statement) :
    inv.Keeps [] (execBlock (invoke depth) block) := by
  rw [execBlock_eq_denote]
  exact Invariant.denote (Invariant.invoke depth []) _ (planBlock_within rfl block)

theorem keeps_expr {inv : Invariant .statement} (depth : Nat) (expr : Expr) :
    inv.Keeps [] (eval (invoke depth) expr) := by
  rw [eval_eq_denote]
  exact Invariant.denote (Invariant.invoke depth []) _ (expr.plan_within .statement)

theorem keeps_step {inv : Invariant .statement} (depth : Nat) (step : Option Expr) :
    inv.Keeps [] (evalStep (invoke depth) step) := by
  rw [evalStep_eq_denote]
  exact Invariant.denote (Invariant.invoke depth []) _ (planStep_within .statement step)

/-! ## Counters -/

/-- The name is that of a variable which a loop can count with. -/
def Environment.Counts (env : Environment) (name : String) : Prop :=
  ∃ binding, env.get? name = some binding ∧ binding.constant = false ∧ binding.ty = .entier

theorem Environment.Counts.becomes {env env' : Environment} {name : String} (h : env.Counts name)
    (hbecomes : env.Becomes env') : env'.Counts name := by
  obtain ⟨old, hold, hconstant, hty⟩ := h
  obtain ⟨new, hnew, hkept⟩ := hbecomes name old hold
  exact ⟨new, hnew, hkept.constant.trans hconstant, hkept.ty.trans hty⟩

section Counter
variable {name : String} {m : Machine} (h : m.scope.Counts name)
include h

theorem resolveVariable_counter (line : Nat) :
    ∃ binding, resolveVariable name line m = .ok binding m ∧ binding.ty = .entier := by
  obtain ⟨binding, hget, hconstant, hty⟩ := h
  have hresolve : resolve name line m = .ok binding m := by
    unfold resolve
    rw [get_bind, Machine.resolve?, hget]
    rfl
  refine ⟨binding, ?_, hty⟩
  unfold resolveVariable
  rw [bind_ok hresolve, hconstant]
  rfl

theorem checkCounter_counter (line : Nat) : checkCounter name line m = .ok () m := by
  obtain ⟨binding, hbinding, hty⟩ := resolveVariable_counter h line
  unfold checkCounter
  rw [bind_ok hbinding, if_pos hty]
  rfl

/-- An integer can always be stored in a counter. -/
theorem assign_counter (value : Entier) (line : Nat) :
    assign name (.integer value) line m = .ok () (m.set name (.integer value)) := by
  obtain ⟨binding, hbinding, hty⟩ := resolveVariable_counter h line
  unfold assign
  rw [bind_ok hbinding, hty]
  rfl

end Counter

/-! ## Sequences of turns -/

/-- One turn for each of the integers, in order, up to the first one that fails or returns. -/
def Run.forEach (turn : Int → Run Flow) : List Int → Run Flow
  | [] => return .normal
  | value :: rest => andThen (turn value) (forEach turn rest)

/-- One turn of a loop: the integer is stored in the variable, the body runs, the turn is paid. -/
def Run.countedTurn (name : String) (body : Run Flow) (line : Nat) (value : Int) : Run Flow :=
  andThen (do assign name (.integer (Int64.ofInt value)) line; body)
    (do chargeTurn line; return .normal)

/-- The integers from `first` on by `step` that are not past `last`. -/
def visited (first last step : Int) : List Int :=
  (List.range (turnCount first last step)).map fun i : Nat => first + i * step

theorem length_visited (first last step : Int) :
    (visited first last step).length = turnCount first last step := by
  rw [visited, List.length_map, List.length_range]

theorem getElem_visited {first last step : Int} {i : Nat}
    (h : i < (visited first last step).length) :
    (visited first last step)[i] = first + i * step := by
  simp only [visited, List.getElem_map, List.getElem_range]

theorem visited_cons {first last step : Int} (h : InRange first last step) :
    visited first last step = first :: visited (first + step) last step := by
  rw [visited, turnCount_succ h, List.range_succ_eq_map, List.map_cons, List.map_map, visited]
  congr 1
  · omega
  · refine List.map_congr_left fun i _ => ?_
    rw [Function.comp_apply, Nat.succ_eq_add_one, Int.natCast_succ, Int.add_mul, Int.one_mul]
    omega

theorem visited_nil {first last step : Int} (hstep : step ≠ 0) (h : ¬InRange first last step) :
    visited first last step = [] := by
  rw [visited, turnCount_eq_zero hstep h]
  rfl

namespace Run

theorem andThen_assoc (first next last : Run Flow) :
    andThen (andThen first next) last = andThen first (andThen next last) := by
  unfold andThen
  rw [bind_assoc]
  congr 1
  funext flow
  cases flow <;> rfl

theorem andThen_charge (line : Nat) (next : Run Flow) :
    andThen (do chargeTurn line; return .normal) next = (do chargeTurn line; next) := by
  unfold andThen
  rw [bind_assoc]
  rfl

theorem andThen_ok {first next : Run Flow} {m m' : Machine} (h : first m = .ok .normal m') :
    andThen first next m = next m' :=
  bind_ok h

theorem andThen_eq_normal {first next : Run Flow} {m m'' : Machine}
    (h : andThen first next m = .ok .normal m'') :
    ∃ m', first m = .ok .normal m' ∧ next m' = .ok .normal m'' := by
  obtain ⟨flow, m', hfirst, hnext⟩ := bind_eq_ok h
  cases flow with
  | normal => exact ⟨m', hfirst, hnext⟩
  | returned value => cases hnext

/-- The loop of the machine, which tests the integer, adds the step to it and stops where there is
no sum, is the sequence of its turns. -/
theorem forTurns_eq_forEach (name : String) (last step : Entier) (hstep : step.toInt ≠ 0)
    (body : Run Flow) (line : Nat) (value : Entier) :
    forTurns name last step body line value =
      forEach (countedTurn name body line) (visited value.toInt last.toInt step.toInt) := by
  -- Along the recursion of the machine, which ends at the bound or where there is no sum.
  induction value using forTurns.induct last step with
  | case1 value hrange ih =>
    rw [forTurns, dif_pos hrange, visited_cons hrange, forEach, countedTurn, Int64.ofInt_toInt,
      andThen_assoc, andThen_charge]
    congr 2
    funext _
    split
    · rename_i next hnext
      rw [ih next hnext, Entier.toInt_of_ofInt? hnext]
    · rename_i hnext
      rw [visited_nil hstep (not_inRange_of_add?_eq_none hnext), forEach]
  | case2 value hrange =>
    rw [forTurns, dif_neg hrange, visited_nil hstep hrange, forEach]

/-- A sequence of turns ends normally when each of them does, from where the one before it left the
machine. -/
theorem forEach_eq_normal {turn : Int → Run Flow} {values : List Int} {m m' : Machine} :
    forEach turn values m = .ok .normal m' ↔
      ∃ trace : Nat → Machine, trace 0 = m ∧ trace values.length = m' ∧
        ∀ i (h : i < values.length), turn values[i] (trace i) = .ok .normal (trace (i + 1)) := by
  induction values generalizing m with
  | nil =>
    constructor
    · intro h
      cases h
      exact ⟨fun _ => m', rfl, rfl, fun i hi => absurd hi (Nat.not_lt_zero i)⟩
    · rintro ⟨trace, rfl, rfl, -⟩
      rfl
  | cons value rest ih =>
    constructor
    · intro h
      obtain ⟨m₁, hturn, hrest⟩ := andThen_eq_normal h
      obtain ⟨trace, hstart, hend, hturns⟩ := ih.1 hrest
      refine ⟨fun i => i.casesOn m trace, rfl, hend, fun i hi => ?_⟩
      cases i with
      | zero =>
        rw [← hstart] at hturn
        exact hturn
      | succ i => exact hturns i (Nat.lt_of_succ_lt_succ hi)
    · rintro ⟨trace, rfl, hend, hturns⟩
      have hfirst : turn value (trace 0) = .ok .normal (trace 1) := hturns 0 (Nat.succ_pos _)
      rw [forEach, andThen_ok hfirst]
      exact ih.2 ⟨fun i => trace (i + 1), rfl, hend,
        fun i hi => hturns (i + 1) (Nat.succ_lt_succ hi)⟩

end Run

/-! ## The statement -/

section Turns
variable {inv : Invariant .statement} {name : String} {body : Run Flow}

theorem keeps_countedTurn (hbody : inv.Keeps [] body) (line : Nat) (value : Int) :
    inv.Keeps [] (countedTurn name body line value) := by
  have hassign : inv.Keeps [] (assign name (.integer (Int64.ofInt value)) line) :=
    fun m h => inv.changes rfl (assign_changes name _ line m) h
  exact (hassign.bind fun _ => hbody).andThen
    ((Invariant.Keeps.chargeTurn rfl line).bind fun _ => Invariant.Keeps.pure _)

theorem keeps_forEach (hbody : inv.Keeps [] body) (line : Nat) (values : List Int) :
    inv.Keeps [] (forEach (countedTurn name body line) values) := by
  induction values with
  | nil => exact Invariant.Keeps.pure _
  | cons value rest ih => exact (keeps_countedTurn hbody line value).andThen ih

end Turns

theorem exec_forLoop {depth : Nat} {name : String} {first last : Expr} {step : Option Expr}
    {s e k : Entier} {m m₁ m₂ m₃ : Machine} {binding : Binding} (body : List Statement) (line : Nat)
    (hname : m.resolve? name = some binding) (hconstant : binding.constant = false)
    (hty : binding.ty = .entier)
    (hfirst : eval (invoke depth) first m = .ok (.integer s) m₁)
    (hlast : eval (invoke depth) last m₁ = .ok (.integer e) m₂)
    (hstep : evalStep (invoke depth) step m₂ = .ok (.integer k) m₃) (hk : k.toInt ≠ 0) :
    let loop := Statement.forLoop name first last step body line
    let turn := countedTurn name (execBlock (invoke depth) body) line
    let values := visited s.toInt e.toInt k.toInt
    exec (invoke depth) loop m = forEach turn values m₃ ∧
    (values.length : Int) = max 0 (⌊((e.toInt - s.toInt : Int) : ℚ) / k.toInt⌋ + 1) ∧
    (∀ i : Nat, i < values.length ↔ InRange (s.toInt + i * k.toInt) e.toInt k.toInt) ∧
    (∀ i (h : i < values.length), values[i] = s.toInt + i * k.toInt ∧
      (Int64.ofInt values[i]).toInt = values[i] ∧
      ∀ m', forEach turn (values.take i) m₃ = .ok .normal m' →
        assign name (.integer (Int64.ofInt values[i])) line m' =
          .ok () (m'.set name (.integer (Int64.ofInt values[i])))) ∧
    ∀ m', exec (invoke depth) loop m = .ok .normal m' ↔
      ∃ trace : Nat → Machine, trace 0 = m₃ ∧ trace values.length = m' ∧
        ∀ i (h : i < values.length), turn values[i] (trace i) = .ok .normal (trace (i + 1)) := by
  intro loop turn values
  have hcounts : m.scope.Counts name :=
    ⟨binding, Machine.resolve?_variable hname hconstant, hconstant, hty⟩
  have hcounts₃ : m₃.scope.Counts name :=
    ((hcounts.becomes (scope_becomes (keeps_expr depth first) hfirst)).becomes
      (scope_becomes (keeps_expr depth last) hlast)).becomes
      (scope_becomes (keeps_step depth step) hstep)
  have hexec : exec (invoke depth) loop m = forEach turn values m₃ := by
    have hbound {c : Run Value} {n : Entier} {m m' : Machine} (hc : c m = .ok (.integer n) m') :
        bound c line m = .ok n m' := by
      rw [bound, bind_ok hc]
      rfl
    rw [exec, forLoop, bind_ok (checkCounter_counter hcounts line), bind_ok (hbound hfirst),
      bind_ok (hbound hlast), bind_ok (hbound hstep), if_neg hk, forTurns_eq_forEach _ _ _ hk]
  refine ⟨hexec, ?_, fun i => ?_, fun i hi => ⟨getElem_visited hi, ?_, fun m' hm' => ?_⟩,
    fun m' => ?_⟩
  · rw [length_visited, toInt_turnCount]
  · rw [length_visited, lt_turnCount_iff hk]
  · rw [length_visited, lt_turnCount_iff hk] at hi
    rw [getElem_visited]
    exact Entier.toInt_ofInt (fits_of_inRange hi)
  · have hkeeps : (Invariant.lasting m₃.scope).Keeps [] (forEach turn (values.take i)) :=
      keeps_forEach (keeps_block depth body) line _
    exact assign_counter (hcounts₃.becomes (scope_becomes hkeeps hm')) _ line
  · rw [hexec, forEach_eq_normal]

/-- A loop whose next integer would be no `ENTIER`, with a body that assigns to the variable. -/
theorem exec_forLoop_end :
    let body : List Statement := [.assign "i" (.literal (.integer 0) 2) 2]
    let m : Machine := { Machine.initial [] .standard .steady with
      globals := ⟨[("i", ⟨"i", .entier, .uninitialized, false⟩)]⟩ }
    exec (invoke 0) (.forLoop "i" (.literal (.integer 9223372036854775804) 1)
        (.literal (.integer 9223372036854775807) 1) (some (.literal (.integer 2) 1)) body 1) m =
      forEach (countedTurn "i" (execBlock (invoke 0) body) 1)
        [9223372036854775804, 9223372036854775806] m := by
  intro body m
  have hvalues : [9223372036854775804, 9223372036854775806] =
      visited 9223372036854775804 9223372036854775807 2 := by decide
  rw [hvalues]
  exact (exec_forLoop (s := 9223372036854775804) (e := 9223372036854775807) (k := 2) body 1
    rfl rfl rfl rfl rfl rfl (by decide)).1

end Pseudocode
