import Pseudocode.Proofs.Change
import Pseudocode.Proofs.Plan.Discipline

/-! # Two runs of one plan, side by side

The same plan is carried out on two machines, one step here for each step there. Either the machines
stay related, and the two runs do the same; or the first run is cut short by an error of a certain
kind, and all that it has written is the beginning of what the second one writes.

* `Lockstep`: what has to be known of single primitives, and of scopes that open and close.
* `Lockstep.after`: any number of steps of a plan.
* `Lockstep.of_ends`: the ends of two runs that come to an end. -/

namespace Pseudocode
set_option autoImplicit false
open Run

/-! ## Output only grows -/

/-- All that was written on the first machine is the beginning of what was on the second. -/
def Machine.WroteFirst (m m' : Machine) : Prop := ∃ text, m'.output = m.output ++ text

/-- The start of a call does no more to the machine than its charge does. -/
theorem Routine.start_machine (routine : Routine) (values : List Value) (line : Nat) (m : Machine) :
    Ending.machine (routine.start values line m) =
      Ending.machine (chargeCall routine.name line m) := by
  unfold Routine.start
  cases hm : chargeCall routine.name line m with
  | error e m' =>
    rw [bind_error hm]
    rfl
  | ok _ m' =>
    rw [bind_ok hm]
    cases routine.frame values line <;> rfl

namespace Machine.WroteFirst

theorem refl (m : Machine) : m.WroteFirst m := ⟨"", by rw [String.append_empty]⟩

theorem trans {m m' m'' : Machine} (h : m.WroteFirst m') (h' : m'.WroteFirst m'') :
    m.WroteFirst m'' := by
  obtain ⟨text, htext⟩ := h
  obtain ⟨text', htext'⟩ := h'
  exact ⟨text ++ text', by rw [htext', htext, String.append_assoc]⟩

theorem of_eq {m m' : Machine} (h : m'.output = m.output) : m.WroteFirst m' :=
  ⟨"", by rw [h, String.append_empty]⟩

theorem change {place : Place} {m m' : Machine} (h : Change place m m') : m.WroteFirst m' := by
  cases h with
  | write text => exact ⟨text, rfl⟩
  | @store _ name _ value =>
    refine of_eq ?_
    unfold Machine.set
    split <;> rfl
  | count | take | register | bind => exact of_eq rfl

theorem changes {place : Place} {m m' : Machine} (h : Changes place m m') : m.WroteFirst m' := by
  induction h with
  | refl => exact refl m
  | tail _ hchange ih => exact ih.trans (change hchange)

theorem start (routine : Routine) (values : List Value) (line : Nat) (m : Machine) :
    m.WroteFirst (Ending.machine (routine.start values line m)) := by
  rw [Routine.start_machine]
  exact changes (chargeCall_changes .expression routine.name line m)

end Machine.WroteFirst

/-- Whatever a computation does, what was written before stays. -/
def writing (before : Machine) : Discipline where
  running := before.WroteFirst
  failed _ := before.WroteFirst
  primitive p m h := by
    have hwrote := h.trans (.changes (p.run_changes m))
    cases hm : p.run m <;> rw [hm] at hwrote <;> exact hwrote
  start routine values line m h := by
    have hwrote := h.trans (.start routine values line m)
    cases hm : routine.start values line m <;> rw [hm] at hwrote <;> exact hwrote
  pop h := h
  pop_failed h := h

theorem Progress.wroteFirst_advance {α : Type} (progress : Progress α) :
    progress.machine.WroteFirst progress.advance.machine := by
  cases progress with
  | finished ending => exact .refl _
  | running work m =>
    have hstep : (writing m).Obeys (work.step m) := Discipline.step work (.refl m)
    change m.WroteFirst (work.step m).machine
    cases hm : work.step m with
    | running work' m' =>
      rw [hm] at hstep
      exact hstep
    | finished ending =>
      rw [hm] at hstep
      cases ending <;> exact hstep

/-! ## Lockstep -/

section Follows
variable (related : Machine → Machine → Prop) (cut : RuntimeError → Prop) {α : Type}

/-- How far the second run has come when the first one has come so far. -/
inductive Progress.Follows : Progress α → Progress α → Prop where
  | running (work : Running α) {m m' : Machine} :
      related m m' → Follows (.running work m) (.running work m')
  | ok (a : α) {m m' : Machine} :
      related m m' → Follows (.finished (.ok a m)) (.finished (.ok a m'))
  | error (e : RuntimeError) {m m' : Machine} :
      related m m' → Follows (.finished (.error e m)) (.finished (.error e m'))
  | cut {e : RuntimeError} {m : Machine} {other : Progress α} :
      cut e → m.WroteFirst other.machine → Follows (.finished (.error e m)) other

end Follows

structure Lockstep where
  related : Machine → Machine → Prop
  cut : RuntimeError → Prop
  primitive {α : Type} (p : Primitive α) {m m' : Machine} :
    related m m' → Progress.Follows related cut (.finished (p.run m)) (.finished (p.run m'))
  push {m m' : Machine} (frame : Environment) :
    related m m' → related (m.push frame) (m'.push frame)
  pop {m m' : Machine} : related m m' → related m.pop m'.pop

namespace Lockstep
variable {pair : Lockstep} {α : Type}

/-- A call starts with its charge; its scope depends on its arguments alone. -/
theorem start (routine : Routine) (values : List Value) (line : Nat) {m m' : Machine}
    (h : pair.related m m') :
    Progress.Follows pair.related pair.cut (.finished (routine.start values line m))
      (.finished (routine.start values line m')) := by
  have hcharge := pair.primitive (.chargeCall routine.name line) h
  have hmachine := routine.start_machine values line m'
  rw [Primitive.run] at hcharge
  unfold Routine.start at hmachine ⊢
  cases hone : chargeCall routine.name line m with
  | ok _ m₁ =>
    rw [hone] at hcharge
    cases hother : chargeCall routine.name line m' with
    | error e m₁' =>
      rw [hother] at hcharge
      cases hcharge
    | ok _ m₁' =>
      rw [hother] at hcharge
      rw [bind_ok hone, bind_ok hother]
      cases hcharge with
      | ok _ hrelated =>
        cases routine.frame values line with
        | ok frame => exact .ok frame hrelated
        | error e => exact .error e hrelated
  | error e m₁ =>
    rw [hone] at hcharge
    rw [bind_error hone]
    generalize hother : chargeCall routine.name line m' = other at hcharge hmachine
    cases hcharge with
    | error _ hrelated =>
      rw [bind_error hother]
      exact .error e hrelated
    | cut hcut hwrote =>
      refine .cut hcut ?_
      change m₁.WroteFirst (Ending.machine _)
      rw [hmachine]
      exact hwrote

theorem planStep (plan : Plan α) {m m' : Machine} (h : pair.related m m') :
    Progress.Follows pair.related pair.cut (plan.step m) (plan.step m') := by
  cases plan with
  | pure a => exact .ok a h
  | prim p => exact pair.primitive p h
  | bind | whileLoop | repeatLoop | countLoop => exact .running _ h
  | call routine values line =>
    have hstart := start routine values.1 line h
    rw [Plan.step, Plan.step]
    generalize routine.start values.1 line m = first at hstart
    generalize routine.start values.1 line m' = second at hstart
    cases hstart with
    | ok frame hrelated => exact .running _ (pair.push frame hrelated)
    | error e hrelated => exact .error e hrelated
    | cut hcut hwrote => cases second <;> exact .cut hcut hwrote

/-- One step of both. The induction follows the calls that are active, which are the same ones. -/
theorem step (work : Running α) {m m' : Machine} (h : pair.related m m') :
    Progress.Follows pair.related pair.cut (work.step m) (work.step m') := by
  induction work with
  | plan source => exact planStep source h
  | bind first next ih =>
    unfold Running.step
    generalize first.step m = one at ih
    generalize first.step m' = other at ih
    cases ih with
    | running first' hrelated => exact .running _ hrelated
    | ok b hrelated => exact .running _ hrelated
    | error e hrelated => exact .error e hrelated
    -- the first run is over, whatever the second one did in this step
    | cut hcut hwrote =>
      rcases other with (_ | _) | _ <;> exact .cut hcut hwrote
  | active routine body ih =>
    unfold Running.step
    generalize body.step m = one at ih
    generalize body.step m' = other at ih
    cases ih with
    | running body' hrelated => exact .running _ hrelated
    | ok flow hrelated => exact .ok flow (pair.pop hrelated)
    | error e hrelated => exact .error e (pair.pop hrelated)
    | cut hcut hwrote =>
      rcases other with (_ | _) | _ <;> exact .cut hcut hwrote

theorem advance {one other : Progress α}
    (h : Progress.Follows pair.related pair.cut one other) :
    Progress.Follows pair.related pair.cut one.advance other.advance := by
  cases h with
  | running work hrelated => exact step work hrelated
  | ok a hrelated => exact .ok a hrelated
  | error e hrelated => exact .error e hrelated
  | cut hcut hwrote => exact .cut hcut (hwrote.trans other.wroteFirst_advance)

theorem after (plan : Plan α) {m m' : Machine} (h : pair.related m m') (k : Nat) :
    Progress.Follows pair.related pair.cut (plan.after k m) (plan.after k m') := by
  have hafter (one other : Progress α) (hfollows : one.Follows pair.related pair.cut other) :
      Progress.Follows pair.related pair.cut (one.after k) (other.after k) := by
    induction k generalizing one other with
    | zero => exact hfollows
    | succ k ih => exact ih _ _ (advance hfollows)
  exact hafter _ _ (.running _ h)

/-- Two runs that come to an end do so in step, or the first one was cut short. -/
theorem of_ends (pair : Lockstep) {plan : Plan α} {m m' : Machine} {ending ending' : Ending α}
    (h : pair.related m m') (hends : Ends (.plan plan) m ending)
    (hends' : Ends (.plan plan) m' ending') :
    Progress.Follows pair.related pair.cut (.finished ending) (.finished ending') := by
  obtain ⟨n, hn⟩ := hends.after
  obtain ⟨n', hn'⟩ := hends'.after
  have hfollows := after plan h (n + n')
  unfold Plan.after at hfollows
  rw [hn (n + n') (Nat.le_add_right n n'), hn' (n + n') (Nat.le_add_left n' n)] at hfollows
  exact hfollows

end Lockstep
end Pseudocode
