import Pseudocode.Proofs.Budget.Limits

/-! # A step may be counted later

Where the time is not limited, a step can be counted before a computation or after it: one of the two
orders succeeds when the other does, with the same value and on the same machine. Other charges find
one step more or less on the way, but the last of them all finds the same number in both orders.

* `Machine.Charged`: what a charge that succeeds does.
* `Run.Postpones`: a step that is counted first may as well be counted last.
* `Plan.denote_postpones`: so it is with every plan. -/

namespace Pseudocode
set_option autoImplicit false
open Run

/-! ## Charges that succeed -/

/-- The time is not limited, and fewer than `n` steps are left of a limit that can be exceeded. -/
structure Machine.Untimed (m : Machine) (n : Nat) : Prop extends m.Bounded n where
  noTime : m.limits.timeout = none

/-- A step was left, and it was counted. -/
def Machine.Charged (m m' : Machine) : Prop :=
  m.steps < m.limits.maxSteps ∧ m' = { m with steps := m.steps + 1 }

section Charges
variable {n : Nat} {m m' : Machine}

theorem Machine.Account.untimed (h : m.Account [] m') (hm : m.Untimed n) : m'.Untimed n :=
  ⟨h.bounded hm.toBounded, by rw [h.limits]; exact hm.noTime⟩

theorem Machine.Untimed.push (hm : m.Untimed n) (frame : Environment) : (m.push frame).Untimed n :=
  ⟨⟨hm.limit, hm.left⟩, hm.noTime⟩

/-- A step that is counted uses up one of those that are left. -/
theorem Machine.Charged.untimed (h : m.Charged m') (hm : m.Untimed (n + 1)) : m'.Untimed n := by
  obtain ⟨hleft, rfl⟩ := h
  refine ⟨⟨hm.limit, ?_⟩, hm.noTime⟩
  have hbound := hm.left
  simp only [Machine.stepsLeft] at hbound ⊢
  omega

theorem Machine.Charged.still_untimed (h : m.Charged m') (hm : m.Untimed n) : m'.Untimed n :=
  h.untimed ⟨⟨hm.limit, Nat.lt_succ_of_lt hm.left⟩, hm.noTime⟩

/-- The limit is exceeded by the next step exactly if none is left. -/
theorem Machine.counted_exceeds (hlimit : m.limits.maxSteps < maxCount) :
    m.counted.limits.maxSteps < m.counted.steps ↔ m.limits.maxSteps ≤ m.steps := by
  unfold counted
  split
  · exact Nat.lt_succ_iff
  · exact ⟨Nat.le_of_lt, fun _ => by omega⟩

/-- The machine of a step that was left. -/
theorem Machine.Untimed.counted (hm : m.Untimed n) (hleft : m.steps < m.limits.maxSteps) :
    m.Charged m.counted ∧ ∀ line, Run.checkTime line m.counted = .ok () m.counted := by
  have hcounted := Machine.counted_eq (Nat.lt_trans hleft hm.limit)
  have hcharged : m.Charged m.counted := ⟨hleft, hcounted⟩
  have hlater := hcharged.still_untimed hm
  exact ⟨hcharged, fun line => checkTime_noTime hlater.noTime rfl line⟩

theorem chargeTurn_eq_ok (hm : m.Untimed n) (line : Nat) :
    chargeTurn line m = .ok () m' ↔ m.Charged m' := by
  rw [chargeTurn_eq]
  by_cases hleft : m.steps < m.limits.maxSteps
  · obtain ⟨hcharged, htime⟩ := hm.counted hleft
    rw [if_neg (by rw [Machine.counted_exceeds hm.limit]; omega), htime]
    constructor
    · intro h
      cases h
      exact hcharged
    · rintro ⟨-, rfl⟩
      rw [hcharged.2]
  · rw [if_pos (by rw [Machine.counted_exceeds hm.limit]; omega)]
    exact ⟨nofun, fun h => absurd h.1 hleft⟩

theorem chargeCall_eq_ok (hm : m.Untimed n) (name : String) (line : Nat) :
    chargeCall name line m = .ok () m' ↔
      m.Charged m' ∧ m.frames.length < m.limits.maxDepth := by
  rw [chargeCall_eq]
  by_cases hleft : m.steps < m.limits.maxSteps
  · obtain ⟨hcharged, htime⟩ := hm.counted hleft
    rw [if_neg (by rw [Machine.counted_exceeds hm.limit]; omega), htime, hcharged.2]
    dsimp only
    split
    · exact ⟨nofun, fun h => absurd h.2 (by omega)⟩
    · constructor
      · intro h
        cases h
        exact ⟨⟨hleft, rfl⟩, by omega⟩
      · rintro ⟨⟨-, rfl⟩, -⟩
        rfl
  · rw [if_pos (by rw [Machine.counted_exceeds hm.limit]; omega)]
    exact ⟨nofun, fun h => absurd h.1.1 hleft⟩

end Charges

/-! ## Counting first or last -/

namespace Run
variable {α β : Type}

/-- A step that is counted before the computation may as well be counted after it. -/
def Postpones (c : Run α) (m : Machine) : Prop :=
  ∀ a m', (∃ k, m.Charged k ∧ c k = .ok a m') ↔ ∃ k, c m = .ok a k ∧ k.Charged m'

variable {m : Machine}

theorem postpones_pure (a : α) : Postpones (pure a) m := by
  intro b m'
  constructor
  · rintro ⟨k, hcharged, h⟩
    cases h
    exact ⟨m, rfl, hcharged⟩
  · rintro ⟨k, h, hcharged⟩
    cases h
    exact ⟨m', hcharged, rfl⟩

theorem postpones_of_fails {c : Run α} (h : ∀ m a m', c m ≠ .ok a m') : Postpones c m :=
  fun a m' => ⟨fun ⟨k, _, hk⟩ => absurd hk (h k a m'), fun ⟨k, hk, _⟩ => absurd hk (h m a k)⟩

theorem postpones_lift (result : Except RuntimeError α) : Postpones (lift result) m := by
  cases result with
  | ok a => exact postpones_pure a
  | error e => exact postpones_of_fails fun m a m' => nofun

theorem Postpones.bind {c : Run β} {f : β → Run α} (hc : Postpones c m)
    (hf : ∀ b k, c m = .ok b k → Postpones (f b) k) : Postpones (c >>= f) m := by
  intro a m'
  constructor
  · rintro ⟨k, hcharged, h⟩
    obtain ⟨b, k₁, hfirst, hnext⟩ := bind_eq_ok h
    obtain ⟨k₂, hfirst, hcharged⟩ := (hc b k₁).1 ⟨k, hcharged, hfirst⟩
    obtain ⟨k₃, hnext, hcharged⟩ := (hf b k₂ hfirst a m').1 ⟨k₁, hcharged, hnext⟩
    exact ⟨k₃, (bind_ok hfirst).trans hnext, hcharged⟩
  · rintro ⟨k, h, hcharged⟩
    obtain ⟨b, k₁, hfirst, hnext⟩ := bind_eq_ok h
    obtain ⟨k₂, hcharged, hnext⟩ := (hf b k₁ hfirst a m').2 ⟨k, hnext, hcharged⟩
    obtain ⟨k₃, hcharged, hfirst⟩ := (hc b k₂).2 ⟨k₁, hfirst, hcharged⟩
    exact ⟨k₃, hcharged, (bind_ok hfirst).trans hnext⟩

theorem Postpones.andThen {first next : Run Flow} (hfirst : Postpones first m)
    (hnext : ∀ flow k, first m = .ok flow k → Postpones next k) :
    Postpones (Run.andThen first next) m := by
  refine hfirst.bind fun flow k hk => ?_
  cases flow with
  | normal => exact hnext _ k hk
  | returned value => exact postpones_pure _

/-- Computations that do the same at the machine and after a step is counted. -/
theorem Postpones.congr {c d : Run α} (h : c m = d m) (hlater : ∀ k, m.Charged k → c k = d k)
    (hd : Postpones d m) : Postpones c m := by
  intro a m'
  rw [h, ← hd a m']
  exact exists_congr fun k => and_congr_right fun hcharged => by rw [hlater k hcharged]

theorem postpones_inFrame {c : Run α} {frame : Environment} (hc : Postpones c (m.push frame)) :
    Postpones (inFrame frame c) m := by
  intro a m'
  constructor
  · rintro ⟨k, ⟨hleft, rfl⟩, h⟩
    rw [inFrame_apply] at h
    cases hinner : c (Machine.push { m with steps := m.steps + 1 } frame) with
    | error e k => rw [hinner] at h; cases h
    | ok b k =>
      rw [hinner] at h
      cases h
      obtain ⟨k₁, hk₁, hleft₁, rfl⟩ := (hc a k).1 ⟨_, ⟨hleft, rfl⟩, hinner⟩
      exact ⟨k₁.pop, by rw [inFrame_apply, hk₁]; rfl, hleft₁, rfl⟩
  · rintro ⟨k, h, hleft, rfl⟩
    rw [inFrame_apply] at h
    cases hinner : c (m.push frame) with
    | error e k₁ => rw [hinner] at h; cases h
    | ok b k₁ =>
      rw [hinner] at h
      cases h
      obtain ⟨k₂, ⟨hleft₂, rfl⟩, hk₂⟩ := (hc a _).2 ⟨k₁, hinner, hleft, rfl⟩
      exact ⟨_, ⟨hleft₂, rfl⟩, by rw [inFrame_apply]; exact congrArg Ending.pop hk₂⟩

end Run

/-! ## Primitives -/

section Primitives
variable {n : Nat} {m : Machine}

theorem Primitive.run_postpones {α : Type} (p : Primitive α) (hm : m.Untimed n) :
    Postpones p.run m := by
  intro a m'
  cases hcharges : p.charges with
  | false =>
    have hrun : p.run { m with steps := m.steps + 1 } =
        Ending.rebudget (m.steps + 1) m.limits (p.run m) := p.run_blind hcharges m _ _
    have hbudget := p.run_budget hcharges m
    constructor
    · rintro ⟨k, ⟨hleft, rfl⟩, h⟩
      rw [hrun] at h
      cases hp : p.run m with
      | error e k => rw [hp] at h; cases h
      | ok b k =>
        rw [hp] at h hbudget
        obtain ⟨hsteps, hlimits⟩ : k.steps = m.steps ∧ k.limits = m.limits := hbudget
        cases h
        refine ⟨k, rfl, by rw [hsteps, hlimits]; exact hleft, ?_⟩
        rw [hsteps, ← hlimits]
        rfl
    · rintro ⟨k, h, hleft, rfl⟩
      rw [h] at hrun hbudget
      obtain ⟨hsteps, hlimits⟩ : k.steps = m.steps ∧ k.limits = m.limits := hbudget
      rw [hsteps, hlimits] at hleft
      refine ⟨_, ⟨hleft, rfl⟩, hrun.trans ?_⟩
      rw [Ending.rebudget, hsteps, ← hlimits]
      rfl
  | true =>
    cases p with
    | chargeTurn line =>
      constructor
      · rintro ⟨k, hcharged, h⟩
        have hnext := (chargeTurn_eq_ok (hcharged.still_untimed hm) line).1 h
        exact ⟨k, (chargeTurn_eq_ok hm line).2 hcharged, hnext⟩
      · rintro ⟨k, h, hcharged⟩
        have hfirst := (chargeTurn_eq_ok hm line).1 h
        exact ⟨k, hfirst, (chargeTurn_eq_ok (hfirst.still_untimed hm) line).2 hcharged⟩
    | chargeCall name line =>
      constructor
      · rintro ⟨k, hcharged, h⟩
        obtain ⟨hnext, hroom⟩ := (chargeCall_eq_ok (hcharged.still_untimed hm) name line).1 h
        obtain ⟨hleft, rfl⟩ := hcharged
        exact ⟨_, (chargeCall_eq_ok hm name line).2 ⟨⟨hleft, rfl⟩, hroom⟩, hnext⟩
      · rintro ⟨k, h, hcharged⟩
        obtain ⟨⟨hleft, rfl⟩, hroom⟩ := (chargeCall_eq_ok hm name line).1 h
        have hfirst : m.Charged { m with steps := m.steps + 1 } := ⟨hleft, rfl⟩
        exact ⟨_, hfirst, (chargeCall_eq_ok (hfirst.still_untimed hm) name line).2 ⟨hcharged, hroom⟩⟩
    | _ => cases hcharges

end Primitives

/-! ## Plans -/

namespace Plan
variable {n depth line : Nat} {m : Machine} {condition : Plan Bool} {body : Plan Flow}

/-- What follows a turn that is charged for only matters where fewer steps are left. -/
theorem postpones_chargeTurn {next : Plan Flow} (hm : m.Untimed (n + 1))
    (hnext : ∀ k : Machine, k.Untimed n → Postpones (next.denote (invoke depth)) k) :
    Postpones ((prim (.chargeTurn line) >>= fun _ => next).denote (invoke depth)) m :=
  (Primitive.run_postpones (.chargeTurn line) hm).bind fun _ k hk =>
    hnext k (((chargeTurn_eq_ok hm line).1 hk).untimed hm)

section Loops
variable (hbody : ∀ m : Machine, m.Untimed (n + 1) → Postpones (body.denote (invoke depth)) m)
include hbody

theorem postpones_whileLoop
    (hcondition : ∀ m : Machine, m.Untimed (n + 1) → Postpones (condition.denote (invoke depth)) m)
    (hagain : ∀ m : Machine, m.Untimed n →
      Postpones ((whileLoop condition body line).denote (invoke depth)) m)
    (hm : m.Untimed (n + 1)) :
    Postpones ((whileLoop condition body line).denote (invoke depth)) m := by
  have hturn : Postpones ((whileTurn condition body line).denote (invoke depth)) m := by
    refine (hcondition m hm).bind fun holds m₁ htest => ?_
    have hm₁ := ((condition.denote_accounts depth).of_ok htest).untimed hm
    cases holds with
    | false => exact postpones_pure _
    | true =>
      dsimp only
      rw [if_pos rfl, denote_andThen]
      exact (hbody m₁ hm₁).andThen fun _ m₂ hm₂ =>
        postpones_chargeTurn (((body.denote_accounts depth).of_ok hm₂).untimed hm₁) hagain
  rw [denote_whileTurn] at hturn
  have heq (m : Machine) (hm : m.Untimed (n + 1)) :=
    whileLoop_eq_turn line (condition.denote_accounts depth) (body.denote_accounts depth) hm.limit
  exact hturn.congr (heq m hm) fun k hk => heq k (hk.still_untimed hm)

theorem postpones_repeatLoop
    (hcondition : ∀ m : Machine, m.Untimed (n + 1) → Postpones (condition.denote (invoke depth)) m)
    (hagain : ∀ m : Machine, m.Untimed n →
      Postpones ((repeatLoop body condition line).denote (invoke depth)) m)
    (hm : m.Untimed (n + 1)) :
    Postpones ((repeatLoop body condition line).denote (invoke depth)) m := by
  have hturn : Postpones ((repeatTurn body condition line).denote (invoke depth)) m := by
    unfold repeatTurn
    rw [denote_andThen]
    refine (hbody m hm).andThen fun _ m₁ hfirst => ?_
    have hm₁ := ((body.denote_accounts depth).of_ok hfirst).untimed hm
    refine (hcondition m₁ hm₁).bind fun holds m₂ hm₂ => ?_
    cases holds with
    | true => exact postpones_pure _
    | false =>
      exact postpones_chargeTurn (((condition.denote_accounts depth).of_ok hm₂).untimed hm₁) hagain
  rw [denote_repeatTurn] at hturn
  have heq (m : Machine) (hm : m.Untimed (n + 1)) :=
    repeatLoop_eq_turn line (condition.denote_accounts depth) (body.denote_accounts depth) hm.limit
  exact hturn.congr (heq m hm) fun k hk => heq k (hk.still_untimed hm)

theorem postpones_countLoop {name : String} {value last step : Entier} {nonzero : step.toInt ≠ 0}
    (hagain : ∀ next (m : Machine), m.Untimed n →
      Postpones ((countLoop name next last step nonzero body line).denote (invoke depth)) m)
    (hm : m.Untimed (n + 1)) :
    Postpones ((countLoop name value last step nonzero body line).denote (invoke depth)) m := by
  rw [countLoop_eq_turn]
  unfold countTurn
  split
  · rw [denote_andThen]
    let first : Plan Flow := do prim (.assign name (.integer value) line); body
    have hfirst : Postpones (first.denote (invoke depth)) m :=
      (Primitive.run_postpones (.assign name (.integer value) line) hm).bind fun _ m₁ hm₁ =>
        hbody m₁ (((prim (.assign name (.integer value) line)).denote_accounts depth).of_ok hm₁
          |>.untimed hm)
    refine hfirst.andThen fun _ m₁ hm₁ => ?_
    have hm₁' := ((first.denote_accounts depth).of_ok hm₁).untimed hm
    refine postpones_chargeTurn hm₁' fun m₂ hm₂ => ?_
    cases value.add? step with
    | some next => exact hagain next m₂ hm₂
    | none => exact postpones_pure _
  · exact postpones_pure _

end Loops

/-- A routine is entered with fewer steps left, and in a scope of its own. -/
theorem postpones_call {routine : Routine} {values : Values routine.params.length}
    (hbody : ∀ depth (m : Machine), m.Untimed n →
      Postpones ((planBlock routine.body).denote (invoke depth)) m)
    (hm : m.Untimed (n + 1)) :
    Postpones ((call routine values line).denote (invoke depth)) m := by
  have hcharge := Primitive.run_postpones (.chargeCall routine.name line) hm
  rw [denote]
  cases depth with
  | zero => exact hcharge.bind fun _ _ _ => postpones_of_fails fun _ _ _ => nofun
  | succ depth =>
    rw [invoke]
    refine hcharge.bind fun _ k hk => (postpones_lift _).bind fun frame k' hk' => ?_
    have hinner := (((chargeCall_eq_ok hm _ line).1 hk).1.untimed hm).push frame
    rw [lift_eq_ok hk'] at hk'
    cases hk'
    rw [execBlock_eq_denote]
    exact (postpones_inFrame (hbody depth _ hinner)).bind fun _ _ _ => postpones_lift _

/-- The induction is on the steps that are left and, inside of that, on the plan. -/
theorem denote_postpones (n : Nat) {α : Type} (plan : Plan α) :
    ∀ depth (m : Machine), m.Untimed n → Postpones (plan.denote (invoke depth)) m := by
  induction n generalizing α plan with
  | zero => exact fun _ m hm => absurd hm.left (Nat.not_lt_zero _)
  | succ n below =>
    intro depth
    induction plan with
    | pure a => exact fun m _ => postpones_pure a
    | prim p => exact fun m hm => p.run_postpones hm
    | bind first next ihfirst ihnext =>
      intro m hm
      exact (ihfirst m hm).bind fun b k hk =>
        ihnext b k (((first.denote_accounts depth).of_ok hk).untimed hm)
    | whileLoop condition body line ihcondition ihbody =>
      exact fun m hm => postpones_whileLoop ihbody ihcondition (below _ depth) hm
    | repeatLoop body condition line ihbody ihcondition =>
      exact fun m hm => postpones_repeatLoop ihbody ihcondition (below _ depth) hm
    | countLoop name value last step nonzero body line ihbody =>
      exact fun m hm => postpones_countLoop ihbody (fun next => below _ depth) hm
    | call routine values line => exact fun m hm => postpones_call (below _) hm

end Plan
end Pseudocode
