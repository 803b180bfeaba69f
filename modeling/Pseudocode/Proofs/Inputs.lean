import Pseudocode.Proofs.Budget.Charge
import Pseudocode.Proofs.Plan.Lockstep
import Pseudocode.Proofs.Termination

/-! # Inputs that are never read

Two runs of one program, of which the second one is given more inputs after those of the first. They
go side by side, and what is still to be read on the second machine is always what is to be read on
the first one and the additional inputs. Only the taking of an input can tell the two apart, and it
does so when nothing is left on the first machine. So inputs that a run does not read change nothing
about it.

* `Machine.fed`: the machine with more inputs.
* `fedAlongside`: how primitives follow each other on the two machines.
* `Program.run_more_inputs`: whole programs. -/

namespace Pseudocode
set_option autoImplicit false
open Run

/-- The machine of a run that was given more inputs from the start. -/
def Machine.fed (m : Machine) (extra : List String) : Machine :=
  { m with inputs := m.inputs ++ extra, supplied := m.supplied + extra.length }

/-- The cause by which a run is stopped that has read all of its inputs. -/
def RuntimeCause.isExhausted : RuntimeCause → Bool
  | .inputExhausted _ _ => true
  | _ => false

def RuntimeError.IsExhausted (e : RuntimeError) : Prop := e.cause.isExhausted = true

section Fed
variable {extra : List String} {m : Machine}

theorem Machine.spares_fed (extra : List String) : Machine.Spares (·.fed extra) where
  withGlobals _ _ := rfl
  withFrames _ _ := rfl
  withRoutines _ _ := rfl
  withOutput _ _ := rfl

theorem Machine.sparesCount_fed (extra : List String) : Machine.SparesCount (·.fed extra) where
  withSteps _ _ := rfl
  limits _ := rfl

theorem commutes_checkTime (extra : List String) (line : Nat) :
    Commutes (·.fed extra) (checkTime line) := by
  intro m
  have hoverdue : (m.fed extra).overdue? = m.overdue? := rfl
  rw [checkTime_eq, checkTime_eq, hoverdue]
  split <;> rfl

/-! ## Primitives -/

theorem takeInput_fed {raw : String} {rest : List String} (name : String) (line : Nat)
    (h : m.inputs = raw :: rest) :
    takeInput name line (m.fed extra) = Ending.map (·.fed extra) (takeInput name line m) := by
  have hfed : (m.fed extra).inputs = raw :: (rest ++ extra) := by
    rw [Machine.fed, h, List.cons_append]
  unfold takeInput
  rw [get_bind, get_bind, h, hfed]
  rfl

/-- What reads an input when none is left either fails before it takes one, or for that reason. -/
theorem readInto_exhausted (name : String) (line : Nat) (h : m.inputs = []) :
    (∃ e, resolveVariable name line m = .error e m ∧ readInto name line m = .error e m) ∨
      ∃ e, readInto name line m = .error e m ∧ e.IsExhausted := by
  unfold readInto
  rcases resolveVariable_cases name line m with ⟨e, he⟩ | ⟨binding, hok, -, -⟩
  · exact .inl ⟨e, he, bind_error he⟩
  · have htake : takeInput name line m = .error ⟨.inputExhausted name m.supplied, line⟩ m := by
      unfold takeInput
      rw [get_bind, h]
      rfl
    rw [bind_ok hok]
    exact .inr ⟨_, bind_error htake, rfl⟩

/-- The second machine is the first one with the additional inputs. -/
abbrev Machine.FedBy (extra : List String) (m m' : Machine) : Prop := m' = m.fed extra

theorem Machine.follows_of_commutes {α : Type} {c : Run α}
    (h : c (m.fed extra) = Ending.map (·.fed extra) (c m)) :
    Progress.Follows (Machine.FedBy extra) RuntimeError.IsExhausted (.finished (c m))
      (.finished (c (m.fed extra))) := by
  rw [h]
  cases c m with
  | ok a m' => exact .ok a rfl
  | error e m' => exact .error e rfl

theorem Machine.follows_readInto (name : String) (line : Nat) :
    Progress.Follows (Machine.FedBy extra) RuntimeError.IsExhausted
      (.finished (readInto name line m)) (.finished (readInto name line (m.fed extra))) := by
  have hspares := Machine.spares_fed extra
  cases hinputs : m.inputs with
  | cons raw rest =>
    exact follows_of_commutes (commutes_readInto_at hspares (takeInput_fed name line hinputs))
  | nil =>
    rcases readInto_exhausted name line hinputs with ⟨e, hresolve, hread⟩ | ⟨e, hread, hexhausted⟩
    · have hresolve' : resolveVariable name line (m.fed extra) = .error e (m.fed extra) := by
        rw [commutes_resolveVariable hspares, hresolve]
        rfl
      have hread' : readInto name line (m.fed extra) = .error e (m.fed extra) :=
        bind_error hresolve'
      rw [hread, hread']
      exact .error e rfl
    · have hwrote : (m.fed extra).WroteFirst (Ending.machine (readInto name line (m.fed extra))) :=
        .changes (readInto_changes name line (m.fed extra))
      rw [hread]
      exact .cut hexhausted hwrote

theorem Machine.follows_primitive {α : Type} (p : Primitive α) :
    Progress.Follows (Machine.FedBy extra) RuntimeError.IsExhausted (.finished (p.run m))
      (.finished (p.run (m.fed extra))) := by
  cases hdraws : p.draws with
  | false => exact follows_of_commutes (p.run_commutes (Machine.spares_fed extra) hdraws m)
  | true =>
    cases p with
    | chargeTurn line =>
      have htime := commutes_checkTime extra line m.counted
      exact follows_of_commutes (commutes_chargeTurn_at (sparesCount_fed extra) htime)
    | chargeCall name line =>
      have htime := commutes_checkTime extra line m.counted
      exact follows_of_commutes
        (commutes_chargeCall_at (sparesCount_fed extra) htime (spares_fed extra) name)
    | readInto name line => exact follows_readInto name line
    | _ => cases hdraws

end Fed

/-- Two runs with different inputs. The first one is cut short where its inputs are exhausted. -/
def fedAlongside (extra : List String) : Lockstep where
  related := Machine.FedBy extra
  cut := RuntimeError.IsExhausted
  primitive p m m' h := by
    subst h
    exact Machine.follows_primitive p
  push frame h := by
    subst h
    rfl
  pop h := by
    subst h
    rfl

/-- Inputs after those that a run reads change nothing about it, and are still there when it ends. A
run that ends because there are no more inputs has written the beginning of what it writes with
more of them. -/
theorem Program.run_more_inputs (program : Program) (inputs extra : List String) (limits : Limits)
    (clock : Clock) (hcount : limits.maxSteps < maxCount) :
    match program.run (.initial inputs limits clock) with
    | .ok _ m => program.run (.initial (inputs ++ extra) limits clock) = .ok () (m.fed extra)
    | .error e m =>
      if e.cause.isExhausted then
        ∃ text, (Ending.machine (program.run (.initial (inputs ++ extra) limits clock))).output =
          m.output ++ text
      else program.run (.initial (inputs ++ extra) limits clock) = .error e (m.fed extra) := by
  have hstart :
      Machine.FedBy extra (.initial inputs limits clock)
        (.initial (inputs ++ extra) limits clock) := by
    unfold Machine.initial Machine.FedBy Machine.fed
    rw [List.length_append]
  have hends (start : Machine) (hlimits : start.limits = limits) :
      Ends (.plan program.plan) start (program.run start) := program.run_ends (hlimits ▸ hcount)
  have hfollows := (fedAlongside extra).of_ends hstart (hends _ rfl) (hends _ rfl)
  generalize program.run (.initial inputs limits clock) = ending at hfollows
  generalize program.run (.initial (inputs ++ extra) limits clock) = ending' at hfollows
  cases hfollows with
  | ok _ hfed =>
    obtain rfl := hfed
    rfl
  -- both end in this error: the second one reads nothing more either
  | @error e m _ hfed =>
    obtain rfl := hfed
    dsimp only
    split
    · exact ⟨"", by rw [String.append_empty]; rfl⟩
    · rfl
  | @cut e m _ hcut hwrote =>
    dsimp only
    rw [if_pos (show e.cause.isExhausted = true from hcut)]
    exact hwrote

/-- A program that reads two inputs and writes what it has read. Without the second one it has
written the first; a third one stays. -/
theorem Program.run_more_inputs_two :
    let body : List Statement := [.read ["s"] 1, .write [.var "s" 1] 1]
    let program : Program := ⟨none, [], [⟨["s"], .chaine, 1⟩], [], body ++ body⟩
    (Ending.machine (program.run (.initial ["a"] ⟨10, 1, none⟩ .steady))).output = "a\n" ∧
    (∃ text, (Ending.machine (program.run (.initial ["a", "b"] ⟨10, 1, none⟩ .steady))).output =
      "a\n" ++ text) ∧
    program.run (.initial ["a", "b", "c"] ⟨10, 1, none⟩ .steady) =
      .ok ()
        ((Ending.machine (program.run (.initial ["a", "b"] ⟨10, 1, none⟩ .steady))).fed ["c"]) := by
  intro body program
  have hcut := program.run_more_inputs ["a"] ["b"] ⟨10, 1, none⟩ .steady (by decide)
  have hsame := program.run_more_inputs ["a", "b"] ["c"] ⟨10, 1, none⟩ .steady (by decide)
  exact ⟨rfl, hcut, hsame⟩

end Pseudocode
