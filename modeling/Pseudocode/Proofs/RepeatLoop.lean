import Pseudocode.Proofs.Budget.Postponing
import Pseudocode.Proofs.ForLoop

/-! # The two loops with a test

A loop that tests after its body is the body once, and then a loop that tests before it and goes on
while the test fails. The first one charges for a turn before the body that follows, the second one
after it; up to the end that makes no difference, since a step may be counted later.

* `repeatLoop_eq_normal`, `whileLoop_eq_normal`: how a loop comes to its end, by its first turn.
* `repeatLoop_iff_whileLoop`: the same for computations of which the body postpones what is counted.
* `runBlock_repeatLoop`: blocks and conditions. -/

namespace Pseudocode
set_option autoImplicit false
open Run

/-! ## Loops that end normally -/

section Turns
variable {condition : Run Bool} {body next : Run Flow} {line n : Nat} {m m' : Machine}

theorem andThen_normal_iff {first next : Run Flow} :
    andThen first next m = .ok .normal m' ↔
      ∃ k, first m = .ok .normal k ∧ next k = .ok .normal m' :=
  ⟨andThen_eq_normal, fun ⟨_, hfirst, hnext⟩ => (andThen_ok hfirst).trans hnext⟩

/-- A turn that is charged for, and what follows it. -/
theorem charged_normal_iff (hm : m.Untimed n) :
    (do chargeTurn line; next) m = .ok .normal m' ↔ ∃ k, m.Charged k ∧ next k = .ok .normal m' := by
  constructor
  · intro h
    obtain ⟨_, k, hcharge, hnext⟩ := bind_eq_ok h
    exact ⟨k, (chargeTurn_eq_ok hm line).1 hcharge, hnext⟩
  · rintro ⟨k, hcharged, hnext⟩
    exact (bind_ok ((chargeTurn_eq_ok hm line).2 hcharged)).trans hnext

variable (hcondition : Accounts condition) (hbody : Accounts body)
include hcondition hbody

/-- A loop with its test before the body ends where the test fails, or as it does after a turn. -/
theorem whileLoop_normal_iff (hm : m.Untimed n) :
    whileLoop condition body line m = .ok .normal m' ↔
      condition m = .ok false m' ∨ ∃ k, condition m = .ok true k ∧
        ∃ k', body k = .ok .normal k' ∧
          ∃ k'', k'.Charged k'' ∧ whileLoop condition body line k'' = .ok .normal m' := by
  rw [whileLoop_eq_turn line hcondition hbody hm.limit, whileTurn]
  constructor
  · intro h
    obtain ⟨holds, k, htest, hrest⟩ := bind_eq_ok h
    cases holds with
    | false =>
      cases hrest
      exact .inl htest
    | true =>
      obtain ⟨k', hturn, hnext⟩ := andThen_normal_iff.1 hrest
      have hk' := (hbody.of_ok hturn).untimed ((hcondition.of_ok htest).untimed hm)
      exact .inr ⟨k, htest, k', hturn, (charged_normal_iff hk').1 hnext⟩
  · rintro (htest | ⟨k, htest, k', hturn, hnext⟩)
    · exact bind_ok htest
    · have hk' := (hbody.of_ok hturn).untimed ((hcondition.of_ok htest).untimed hm)
      exact (bind_ok htest).trans
        (andThen_normal_iff.2 ⟨k', hturn, (charged_normal_iff hk').2 hnext⟩)

/-- A loop with its test after the body ends where the test holds after its first turn, or as it does
from there. -/
theorem repeatLoop_normal_iff (hm : m.Untimed n) :
    repeatLoop body condition line m = .ok .normal m' ↔
      ∃ k, body m = .ok .normal k ∧ (condition k = .ok true m' ∨ ∃ k', condition k = .ok false k' ∧
        ∃ k'', k'.Charged k'' ∧ repeatLoop body condition line k'' = .ok .normal m') := by
  rw [repeatLoop_eq_turn line hcondition hbody hm.limit, repeatTurn, andThen_normal_iff]
  refine exists_congr fun k => and_congr_right fun hturn => ?_
  have hk := (hbody.of_ok hturn).untimed hm
  constructor
  · intro h
    obtain ⟨holds, k', htest, hrest⟩ := bind_eq_ok h
    cases holds with
    | true =>
      cases hrest
      exact .inl htest
    | false =>
      have hk' := (hcondition.of_ok htest).untimed hk
      exact .inr ⟨k', htest, (charged_normal_iff hk').1 hrest⟩
  · rintro (htest | ⟨k', htest, hnext⟩)
    · exact bind_ok htest
    · have hk' := (hcondition.of_ok htest).untimed hk
      exact (bind_ok htest).trans ((charged_normal_iff hk').2 hnext)

end Turns

/-! ## One loop by the other -/

/-- What comes in the middle belongs to what comes before it or to what comes after it. -/
theorem exists_middle_assoc {α β : Type} {first : α → Prop} {middle : α → β → Prop}
    {last : β → Prop} :
    (∃ a, first a ∧ ∃ b, middle a b ∧ last b) ↔ ∃ b, (∃ a, first a ∧ middle a b) ∧ last b :=
  ⟨fun ⟨a, hfirst, b, hmiddle, hlast⟩ => ⟨b, ⟨a, hfirst, hmiddle⟩, hlast⟩,
    fun ⟨b, ⟨a, hfirst, hmiddle⟩, hlast⟩ => ⟨a, hfirst, b, hmiddle, hlast⟩⟩

/-- The second test holds where the first one fails, and they leave the same machine. -/
def Run.Opposite (test other : Run Bool) : Prop :=
  ∀ holds m m', other m = .ok holds m' ↔ test m = .ok (!holds) m'

section Agreement
variable {condition other : Run Bool} {body : Run Flow} (line line' : Nat)
  (hopposite : Opposite condition other) (hcondition : Accounts condition) (hother : Accounts other)
  (hbody : Accounts body) (hpostpones : ∀ n m, m.Untimed n → Postpones body m)
include hopposite hcondition hother hbody hpostpones

/-- The induction is on the steps that are left. Where the test fails, a turn is charged for and the
body follows; since the body postpones that, it is as if the turn were charged for after the body, as
the other loop does. -/
theorem repeatLoop_iff_whileLoop (n : Nat) {m m' : Machine} (hm : m.Untimed n) :
    repeatLoop body condition line m = .ok .normal m' ↔
      ∃ k, body m = .ok .normal k ∧ whileLoop other body line' k = .ok .normal m' := by
  induction n generalizing m with
  | zero => exact absurd hm.left (Nat.not_lt_zero _)
  | succ n ih =>
    rw [repeatLoop_normal_iff hcondition hbody hm]
    refine exists_congr fun k => and_congr_right fun hturn => ?_
    have hk := (hbody.of_ok hturn).untimed hm
    rw [whileLoop_normal_iff hother hbody hk, hopposite false]
    refine or_congr_right (exists_congr fun k' => ?_)
    rw [hopposite true]
    refine and_congr_right fun htest => ?_
    have hk' := (hcondition.of_ok htest).untimed hk
    calc (∃ k'', k'.Charged k'' ∧ repeatLoop body condition line k'' = .ok .normal m')
      _ ↔ ∃ k'', k'.Charged k'' ∧ ∃ k₃, body k'' = .ok .normal k₃ ∧
          whileLoop other body line' k₃ = .ok .normal m' :=
        exists_congr fun k'' => and_congr_right fun hcharged => ih (hcharged.untimed hk')
      _ ↔ ∃ k₃, (∃ k'', k'.Charged k'' ∧ body k'' = .ok .normal k₃) ∧
          whileLoop other body line' k₃ = .ok .normal m' := exists_middle_assoc
      _ ↔ ∃ k₃, (∃ k'', body k' = .ok .normal k'' ∧ k''.Charged k₃) ∧
          whileLoop other body line' k₃ = .ok .normal m' :=
        exists_congr fun k₃ => and_congr_left' (hpostpones _ k' hk' .normal k₃)
      _ ↔ ∃ k'', body k' = .ok .normal k'' ∧ ∃ k₃, k''.Charged k₃ ∧
          whileLoop other body line' k₃ = .ok .normal m' := exists_middle_assoc.symm

end Agreement

/-! ## Statements -/

theorem runBlock_singleton_normal (statement : Statement) {m m' : Machine} :
    runBlock [statement] m = .ok .normal m' ↔
      exec (invoke m.depthLeft) statement m = .ok .normal m' := by
  change execBlock (invoke m.depthLeft) [statement] m = _ ↔ _
  rw [execBlock, execBlock, andThen_normal_iff]
  constructor
  · rintro ⟨k, hfirst, hrest⟩
    cases hrest
    exact hfirst
  · exact fun h => ⟨m', h, rfl⟩

theorem test_eq_ok {condition : Run Value} {line : Nat} {holds : Bool} {m m' : Machine} :
    test condition line m = .ok holds m' ↔ condition m = .ok (.boolean holds) m' := by
  constructor
  · intro h
    obtain ⟨value, k, hvalue, hlift⟩ := bind_eq_ok h
    have hbool := lift_eq_ok hlift
    cases value with
    | boolean b =>
      cases hbool
      cases hlift
      exact hvalue
    | _ => cases hbool
  · exact fun h => bind_ok h

theorem test_not_opposite (invoke : Invoke) (condition : Expr) (line line' line'' : Nat) :
    Opposite (test (eval invoke condition) line)
      (test (eval invoke (.unary .not condition line')) line'') := by
  intro holds m m'
  rw [test_eq_ok, test_eq_ok, eval]
  constructor
  · intro h
    obtain ⟨value, k, hvalue, hlift⟩ := bind_eq_ok h
    have hnot := lift_eq_ok hlift
    cases value with
    | boolean b =>
      cases hnot
      cases hlift
      rw [Bool.not_not]
      exact hvalue
    | _ => cases hnot
  · intro h
    rw [bind_ok h, Value.unary, Value.asBool, Except.map, Bool.not_not]
    rfl

/-- A loop that tests after its body ends normally exactly if its body does and, from where that
leaves the machine, the loop that tests the opposite before the body; and it leaves the same
machine. -/
theorem runBlock_repeatLoop (body : List Statement) (condition : Expr) (line line' line'' : Nat)
    {m m' : Machine} (htime : m.limits.timeout = none) (hlimit : m.limits.maxSteps < maxCount) :
    runBlock [.repeatLoop body condition line] m = .ok .normal m' ↔
      ∃ k, runBlock body m = .ok .normal k ∧
        runBlock [.whileLoop (.unary .not condition line') body line''] k = .ok .normal m' := by
  have hblock (k : Machine) : Accounts (execBlock (invoke k.depthLeft) body) := by
    rw [execBlock_eq_denote]
    exact Plan.denote_accounts _ _
  have htest (condition : Expr) (line : Nat) :
      Accounts (test (eval (invoke m.depthLeft) condition) line) := by
    rw [eval_eq_denote, ← Plan.denote_test]
    exact Plan.denote_accounts _ _
  have hpostpones (n : Nat) (k : Machine) (hk : k.Untimed n) :
      Postpones (execBlock (invoke m.depthLeft) body) k := by
    rw [execBlock_eq_denote]
    exact Plan.denote_postpones n _ _ k hk
  rw [runBlock_singleton_normal, exec,
    repeatLoop_iff_whileLoop line line'' (test_not_opposite _ condition line line' line'')
      (htest _ _) (htest _ _) (hblock m) hpostpones (m.stepsLeft + 1)
      ⟨⟨hlimit, Nat.lt_succ_self _⟩, htime⟩]
  refine exists_congr fun k => and_congr_right fun hbody => ?_
  have haccount := (hblock m).of_ok hbody
  rw [runBlock_singleton_normal, exec, haccount.depthLeft_eq]

/-- A loop with three turns, within the two steps that it takes. -/
theorem runBlock_repeatLoop_counting :
    let next : Expr := .binary (.var "i" 2) .add (.literal (.integer 1) 2) 2
    let body : List Statement := [.assign "i" next 2, .write [.var "i" 3] 3]
    let condition : Expr := .binary (.var "i" 4) .greaterEqual (.literal (.integer 3) 4) 4
    let start : Machine := { Machine.initial [] ⟨2, 1, none⟩ .steady with
      globals := ⟨[("i", ⟨"i", .entier, .integer 0, false⟩)]⟩ }
    let last : Machine := { start with
      globals := ⟨[("i", ⟨"i", .entier, .integer 3, false⟩)]⟩, output := "1\n2\n3\n", steps := 2 }
    start.limits.maxSteps < maxCount ∧
    runBlock [.repeatLoop body condition 1] start = .ok .normal last ∧
    ∃ k, runBlock body start = .ok .normal k ∧
      runBlock [.whileLoop (.unary .not condition 4) body 1] k = .ok .normal last := by
  intro next body condition start last
  have hrepeat : runBlock [.repeatLoop body condition 1] start = .ok .normal last := rfl
  exact ⟨by decide, hrepeat, (runBlock_repeatLoop body condition 1 4 1 rfl (by decide)).1 hrepeat⟩

end Pseudocode
