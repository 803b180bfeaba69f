import Pseudocode.Machine

/-! # Computations at a machine

A computation is a function of the machine it starts from. These are the rules by which the parts of
a computation are followed one after the other: what a sequence does when its first part yields a
value, what it does when that stops, and what the elementary parts do. -/

namespace Pseudocode
set_option autoImplicit false

/-- How a computation ended: with a value or with an error, and the machine that it left. -/
abbrev Ending (α : Type) := EStateM.Result RuntimeError Machine α

namespace Ending

/-- The machine that a computation left. -/
def machine {α : Type} : Ending α → Machine
  | .ok _ m | .error _ m => m

/-- The end of a computation that had a scope of its own, after that scope is closed. -/
def pop {α : Type} : Ending α → Ending α
  | .ok a m => .ok a m.pop
  | .error e m => .error e m.pop

theorem machine_pop {α : Type} (ending : Ending α) :
    machine (pop ending) = (machine ending).pop := by
  cases ending <;> rfl

end Ending

namespace Run
variable {α β : Type}

/-! ## Sequences -/

theorem bind_ok {c : Run β} {f : β → Run α} {m m' : Machine} {b : β} (h : c m = .ok b m') :
    (c >>= f) m = f b m' := by
  change EStateM.bind c f m = _
  rw [EStateM.bind, h]

theorem bind_error {c : Run β} {f : β → Run α} {m m' : Machine} {e : RuntimeError}
    (h : c m = .error e m') : (c >>= f) m = .error e m' := by
  change EStateM.bind c f m = _
  rw [EStateM.bind, h]

theorem bind_eq_ok {c : Run β} {f : β → Run α} {m m'' : Machine} {a : α}
    (h : (c >>= f) m = .ok a m'') : ∃ b m', c m = .ok b m' ∧ f b m' = .ok a m'' := by
  cases hc : c m with
  | ok b m' => exact ⟨b, m', rfl, by rw [← h, bind_ok hc]⟩
  | error e m' =>
    rw [bind_error hc] at h
    cases h

/-- Two sequences agree at a machine when their first parts do, and their second parts wherever the
first ones lead. -/
theorem bind_congr_at {c d : Run β} {f g : β → Run α} {m : Machine} (hfirst : c m = d m)
    (hnext : ∀ b m', d m = .ok b m' → f b m' = g b m') : (c >>= f) m = (d >>= g) m := by
  cases hd : d m with
  | ok b m' => rw [bind_ok (hfirst.trans hd), bind_ok hd, hnext b m' hd]
  | error e m' => rw [bind_error (hfirst.trans hd), bind_error hd]

/-! ## Elementary parts -/

theorem lift_eq_ok {result : Except RuntimeError α} {m m' : Machine} {a : α}
    (h : lift result m = .ok a m') : result = .ok a := by
  cases result with
  | error e => cases h
  | ok b =>
    cases h
    rfl

theorem get_bind (f : Machine → Run α) (m : Machine) : (get >>= f) m = f m m := rfl

theorem inFrame_apply (frame : Environment) (computation : Run α) (m : Machine) :
    inFrame frame computation m = Ending.pop (computation (m.push frame)) := by
  unfold inFrame
  cases computation (m.push frame) <;> rfl

end Run
end Pseudocode
