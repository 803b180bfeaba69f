import Pseudocode.Value.Input
import Pseudocode.Builtin.Apply

/-! # The types of values

What each conversion and each operation says about the type of the value it yields. A conversion to
a declared type yields a value of exactly that type, and no operator and no built-in function ever
yields the uninitialized value, whatever it is applied to. -/

namespace Pseudocode
set_option autoImplicit false

/-- A sequence that succeeds does so in both parts. -/
theorem exists_of_bind_eq_ok {ε α β : Type} {first : Except ε α} {next : α → Except ε β} {b : β}
    (h : (first >>= next) = .ok b) : ∃ a, first = .ok a ∧ next a = .ok b := by
  cases first with
  | error e => cases h
  | ok a => exact ⟨a, rfl, h⟩

theorem Literal.toValue_ne_uninitialized (literal : Literal) :
    literal.toValue ≠ .uninitialized := by
  cases literal <;> simp [Literal.toValue]

namespace Value

theorem ne_uninitialized_of_ty {value : Value} {ty : Ty} (h : value.ty? = some ty) :
    value ≠ .uninitialized := by
  rintro rfl
  cases h

theorem ne_uninitialized_of_map {α : Type} {f : α → Value} {outcome : Except RuntimeError α}
    {result : Value} (h : outcome.map f = .ok result) (hf : ∀ a, f a ≠ .uninitialized) :
    result ≠ .uninitialized := by
  cases outcome with
  | error e => cases h
  | ok a =>
    cases h
    exact hf a

/-! ## Conversions -/

theorem convert?_ty {ty : Ty} {value converted : Value} (h : value.convert? ty = some converted) :
    converted.ty? = some ty := by
  unfold convert? at h
  split at h
  case h_8 =>
    obtain ⟨_, _, rfl⟩ := Option.map_eq_some_iff.1 h
    rfl
  case h_9 => cases h
  all_goals
    cases h
    rfl

theorem coerce_ty {value converted : Value} {ty : Ty} {destination : Destination} {line : Nat}
    (h : value.coerce ty destination line = .ok converted) : converted.ty? = some ty := by
  unfold coerce at h
  split at h
  · rename_i found
    cases h
    exact convert?_ty found
  · cases h

/-- A value of the type stands for itself. -/
theorem convert?_of_ty {ty : Ty} {value : Value} (h : value.ty? = some ty) :
    value.convert? ty = some value := by
  cases value <;> cases h <;> rfl

theorem coerce_of_ty {ty : Ty} {value : Value} (h : value.ty? = some ty) (destination : Destination)
    (line : Nat) : value.coerce ty destination line = .ok value := by
  rw [coerce, convert?_of_ty h]

theorem read?_ty {ty : Ty} {raw : String} {value : Value} (h : read? ty raw = some value) :
    value.ty? = some ty := by
  cases ty
  case chaine =>
    cases h
    rfl
  all_goals
    obtain ⟨_, _, rfl⟩ := Option.map_eq_some_iff.1 h
    rfl

/-! ## Operators -/

theorem unary_ne_uninitialized {op : UnOp} {value result : Value} {line : Nat}
    (h : unary op value line = .ok result) : result ≠ .uninitialized := by
  unfold unary at h
  split at h
  · split at h
    · exact ne_uninitialized_of_map h (by simp)
    · cases h; simp
    · cases h
  · exact ne_uninitialized_of_map h (by simp)

theorem realArithmetic_ne_uninitialized {op : BinOp} {a b : Reel} {line : Nat} {result : Value}
    (h : realArithmetic op a b line = .ok result) : result ≠ .uninitialized := by
  cases op
  case add | sub | mul =>
    exact ne_uninitialized_of_map h (by simp)
  case div =>
    simp only [realArithmetic] at h
    split at h
    · cases h
    · exact ne_uninitialized_of_map h (by simp)
  all_goals cases h

theorem integerArithmetic_ne_uninitialized {op : BinOp} {a b : Entier} {line : Nat} {result : Value}
    (h : integerArithmetic op a b line = .ok result) : result ≠ .uninitialized := by
  cases op
  case add | sub | mul | intDiv | mod =>
    exact ne_uninitialized_of_map h (by simp)
  all_goals
    simp only [integerArithmetic] at h
    exact realArithmetic_ne_uninitialized h

theorem arithmetic_ne_uninitialized {op : BinOp} {left right result : Value} {line : Nat}
    (h : arithmetic op left right line = .ok result) : result ≠ .uninitialized := by
  unfold arithmetic at h
  split at h
  · exact integerArithmetic_ne_uninitialized h
  · split at h
    · split at h
      · cases h
      · exact realArithmetic_ne_uninitialized h
    · split at h
      · cases h; simp
      · cases h

theorem comparison_ne_uninitialized {op : BinOp} {left right result : Value} {line : Nat}
    (h : comparison op left right line = .ok result) : result ≠ .uninitialized := by
  unfold comparison at h
  split at h
  · cases h; simp
  · cases h

theorem logic_ne_uninitialized {op : BinOp} {left right result : Value} {line : Nat}
    (h : logic op left right line = .ok result) : result ≠ .uninitialized := by
  obtain ⟨first, -, hfirst⟩ := exists_of_bind_eq_ok h
  split at hfirst
  · cases hfirst; simp
  · exact ne_uninitialized_of_map hfirst (by simp)

theorem binary_ne_uninitialized {op : BinOp} {left right result : Value} {line : Nat}
    (h : binary op left right line = .ok result) : result ≠ .uninitialized := by
  unfold binary at h
  split at h
  · exact arithmetic_ne_uninitialized h
  · exact comparison_ne_uninitialized h
  · exact logic_ne_uninitialized h

end Value

/-! ## Built-in functions -/

namespace Builtin

theorem ofNumber_ne_uninitialized {builtin : Builtin} {argument result : Value} {line : Nat}
    {onEntier : Entier → Except RuntimeError Value} {onReel : Reel → Except RuntimeError Value}
    (hEntier : ∀ n, onEntier n = .ok result → result ≠ .uninitialized)
    (hReel : ∀ x, onReel x = .ok result → result ≠ .uninitialized)
    (h : builtin.ofNumber argument line onEntier onReel = .ok result) :
    result ≠ .uninitialized := by
  unfold ofNumber at h
  split at h
  · exact hEntier _ h
  · exact hReel _ h
  · cases h

theorem power_ne_uninitialized {base exponent result : Value} {line : Nat}
    (h : power base exponent line = .ok result) : result ≠ .uninitialized := by
  unfold power at h
  split at h
  · refine ofNumber_ne_uninitialized (fun b hb => ?_) (fun x hx => ?_) h
    · obtain ⟨n, -, hpower⟩ := exists_of_bind_eq_ok hb
      exact Value.ne_uninitialized_of_map hpower (by simp)
    · exact Value.ne_uninitialized_of_map hx (by simp)
  · cases h

theorem apply1_ne_uninitialized {builtin : Builtin} {argument result : Value} {line : Nat}
    (h : builtin.apply1 argument line = .ok result) : result ≠ .uninitialized := by
  cases builtin
  case abs =>
    refine ofNumber_ne_uninitialized (fun n hn => ?_) (fun x hx => ?_) h
    · exact Value.ne_uninitialized_of_map hn (by simp)
    · cases hx; simp
  case carre =>
    refine ofNumber_ne_uninitialized (fun n hn => ?_) (fun x hx => ?_) h
    · exact Value.ne_uninitialized_of_map hn (by simp)
    · exact Value.ne_uninitialized_of_map hx (by simp)
  case ent | arrondi =>
    refine ofNumber_ne_uninitialized (fun n hn => ?_) (fun x hx => ?_) h
    · cases hn; simp
    · exact Value.ne_uninitialized_of_map hx (by simp)
  case racine =>
    simp only [apply1, root] at h
    split at h
    · cases h
    · split at h <;> cases h
      simp
  case longueur =>
    simp only [apply1, length] at h
    split at h
    · exact Value.ne_uninitialized_of_map h (by simp)
    · cases h
  case puissance => cases h

theorem apply_ne_uninitialized {builtin : Builtin} {arguments : List Value} {result : Value}
    {line : Nat} (h : builtin.apply arguments line = .ok result) : result ≠ .uninitialized := by
  unfold apply at h
  split at h
  · exact power_ne_uninitialized h
  · exact apply1_ne_uninitialized h
  · cases h

end Builtin
end Pseudocode
