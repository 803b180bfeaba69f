import Pseudocode.Builtin.Apply
import Pseudocode.Value.Input

/-! # Where the errors of operations point

Operations on values are given the line of the expression or the statement that they are part of.
They only use it to place their error there: whether an operation succeeds, with which value, and
which error it has otherwise, does not depend on it. Nor is any of these errors about a routine that
returned nothing.

* `Placed`: the line of an operation is only the line of its error.
* `Agree`: two results that are the same up to lines and the spelling of names. -/

namespace Pseudocode
set_option autoImplicit false

/-- The causes by which a call fails that gives no value. -/
def RuntimeCause.isReturn : RuntimeCause → Bool
  | .missingReturn _ | .noReturnValue _ => true
  | _ => false

/-- The line is only used to place the error. -/
def Placed {α : Type} (operation : Nat → Except RuntimeError α) : Prop :=
  ∃ result : Except RuntimeCause α, (∀ cause, result = .error cause → cause.isReturn = false) ∧
    ∀ line, operation line = result.mapError (⟨·, line⟩)

namespace Placed
variable {α β : Type}

theorem ok (a : α) : Placed fun _ => .ok a :=
  ⟨.ok a, nofun, fun _ => rfl⟩

theorem fail {cause : RuntimeCause} (h : cause.isReturn = false) :
    Placed fun line => (.error ⟨cause, line⟩ : Except RuntimeError α) := by
  refine ⟨.error cause, fun other hother => ?_, fun _ => rfl⟩
  cases hother
  exact h

theorem bind {first : Nat → Except RuntimeError β} {next : β → Nat → Except RuntimeError α}
    (hfirst : Placed first) (hnext : ∀ b, Placed (next b)) :
    Placed fun line => first line >>= fun b => next b line := by
  obtain ⟨result, hcause, hline⟩ := hfirst
  cases result with
  | error cause =>
    refine ⟨.error cause, fun other hother => ?_, fun line => ?_⟩
    · cases hother
      exact hcause cause rfl
    · dsimp only
      rw [hline]
      rfl
  | ok b =>
    obtain ⟨result, hcause, hnext⟩ := hnext b
    refine ⟨result, hcause, fun line => ?_⟩
    dsimp only
    rw [hline]
    exact hnext line

theorem map {operation : Nat → Except RuntimeError β} (h : Placed operation) (f : β → α) :
    Placed fun line => (operation line).map f := by
  obtain ⟨result, hcause, hline⟩ := h
  refine ⟨result.map f, fun cause herror => ?_, fun line => ?_⟩
  · cases result with
    | ok b => cases herror
    | error other =>
      cases herror
      exact hcause cause rfl
  · dsimp only
    rw [hline]
    cases result <;> rfl

theorem ite {c : Prop} [Decidable c] {first other : Nat → Except RuntimeError α}
    (hfirst : Placed first) (hother : Placed other) :
    Placed fun line => if c then first line else other line := by
  split
  · exact hfirst
  · exact hother

end Placed

/-! ## Conversions -/

theorem placed_orOverflow {α : Type} (result : Option α) : Placed (orOverflow result) := by
  cases result with
  | none => exact .fail rfl
  | some a => exact .ok a

namespace Value

theorem placed_asEntier (value : Value) : Placed value.asEntier := by
  cases value with
  | integer n => exact .ok n
  | _ => exact .fail rfl

theorem placed_asBool (value : Value) : Placed value.asBool := by
  cases value with
  | boolean b => exact .ok b
  | _ => exact .fail rfl

/-! ## Operators -/

theorem placed_unary (op : UnOp) (value : Value) : Placed (unary op value) := by
  cases op with
  | not => exact (placed_asBool value).map _
  | negate =>
    cases value with
    | integer n => exact (placed_orOverflow n.neg?).map _
    | real x => exact .ok _
    | _ => exact .fail rfl

theorem placed_realArithmetic (op : BinOp) (a b : Reel) : Placed (realArithmetic op a b) := by
  have hresult (x : Reel) : Placed fun line => (orOverflow (Reel.finite? x) line).map Value.real :=
    (placed_orOverflow _).map _
  cases op with
  | add => exact hresult (a + b)
  | sub => exact hresult (a - b)
  | mul => exact hresult (a * b)
  | div => exact .ite (.fail rfl) (hresult (a / b))
  | _ => exact .fail rfl

theorem placed_integerArithmetic (op : BinOp) (a b : Entier) :
    Placed (integerArithmetic op a b) := by
  change Placed fun line => integerArithmetic op a b line
  unfold integerArithmetic
  split
  · exact (placed_orOverflow (a.add? b)).map _
  · exact (placed_orOverflow (a.sub? b)).map _
  · exact (placed_orOverflow (a.mul? b)).map _
  · have hquotient : Placed (a.floorDiv b) := .ite (.fail rfl) (placed_orOverflow _)
    exact hquotient.map _
  · have hrest : Placed (a.floorMod b) := .ite (.fail rfl) (.ok _)
    exact hrest.map _
  · exact placed_realArithmetic op (Reel.ofEntier a) (Reel.ofEntier b)

theorem placed_arithmetic (op : BinOp) (left right : Value) :
    Placed (arithmetic op left right) := by
  change Placed fun line => arithmetic op left right line
  unfold arithmetic
  split
  · exact placed_integerArithmetic op _ _
  · split
    · exact .ite (.fail rfl) (placed_realArithmetic op _ _)
    · split
      · exact .ok _
      · exact .fail rfl

theorem placed_comparison (op : BinOp) (left right : Value) :
    Placed (comparison op left right) := by
  change Placed fun line => comparison op left right line
  unfold comparison
  split
  · exact .ok _
  · exact .fail rfl

theorem placed_logic (op : BinOp) (left right : Value) : Placed (logic op left right) := by
  have hsecond : Placed fun line => do return Value.boolean (← right.asBool line) :=
    (placed_asBool right).bind fun b => .ok (Value.boolean b)
  exact (placed_asBool left).bind fun first => .ite (.ok _) hsecond

theorem placed_binary (op : BinOp) (left right : Value) : Placed (binary op left right) := by
  change Placed fun line => binary op left right line
  unfold binary
  split
  · exact placed_arithmetic op left right
  · exact placed_comparison op left right
  · exact placed_logic op left right

end Value

/-! ## Built-in functions -/

theorem Entier.placed_exponent (n : Entier) : Placed n.exponent :=
  .ite (.fail rfl) (.ite (.fail rfl) (.ok _))

theorem Reel.placed_power (base : Reel) (exponent : Entier) : Placed (Reel.power base exponent) :=
  .ite (.fail rfl) (placed_orOverflow _)

namespace Builtin

theorem placed_ofNumber (builtin : Builtin) (argument : Value)
    {onEntier : Entier → Nat → Except RuntimeError Value}
    {onReel : Reel → Nat → Except RuntimeError Value} (hEntier : ∀ n, Placed (onEntier n))
    (hReel : ∀ x, Placed (onReel x)) :
    Placed fun line =>
      builtin.ofNumber argument line (fun n => onEntier n line) (fun x => onReel x line) := by
  cases argument with
  | integer n => exact hEntier n
  | real x => exact hReel x
  | _ => exact .fail rfl

theorem placed_root (argument : Value) : Placed (root argument) := by
  change Placed fun line => root argument line
  unfold root
  split
  · exact .fail rfl
  · exact .ite (.fail rfl) (.ok _)

theorem placed_length (argument : Value) : Placed (length argument) := by
  change Placed fun line => length argument line
  unfold length
  split
  · exact (placed_orOverflow _).map _
  · exact .fail rfl

theorem placed_power (base exponent : Value) : Placed (power base exponent) := by
  cases exponent with
  | integer n =>
    refine placed_ofNumber _ base (fun b => ?_) fun x => (Reel.placed_power x n).map _
    refine n.placed_exponent.bind fun count => ?_
    exact (placed_orOverflow (b.pow? count)).bind fun result => .ok (Value.integer result)
  | _ => exact .fail rfl

theorem placed_apply1 (builtin : Builtin) (argument : Value) :
    Placed (builtin.apply1 argument) := by
  cases builtin with
  | abs => exact placed_ofNumber _ _ (fun n => (placed_orOverflow n.abs?).map _) fun x => .ok _
  | carre =>
    exact placed_ofNumber _ _ (fun n => (placed_orOverflow (n.mul? n)).map _)
      fun x => (placed_orOverflow (Reel.finite? (x * x))).map _
  | ent =>
    exact placed_ofNumber _ _ (fun n => .ok _) fun x => (placed_orOverflow (Reel.truncate? x)).map _
  | arrondi =>
    exact placed_ofNumber _ _ (fun n => .ok _) fun x => (placed_orOverflow (Reel.round? x)).map _
  | racine => exact placed_root argument
  | longueur => exact placed_length argument
  | puissance => exact .fail rfl

theorem placed_apply (builtin : Builtin) (arguments : List Value) :
    Placed (builtin.apply arguments) := by
  change Placed fun line => builtin.apply arguments line
  unfold apply
  split
  · exact placed_power _ _
  · exact placed_apply1 _ _
  · exact .fail rfl

end Builtin

/-! ## Results that agree -/

/-- Two results that are the same, or errors of one kind, on lines that correspond to each other. -/
inductive Agree {α β : Type} (line : Nat → Nat → Prop) (same : α → β → Prop) :
    Except RuntimeError α → Except RuntimeError β → Prop where
  | ok {a : α} {b : β} : same a b → Agree line same (.ok a) (.ok b)
  | error {cause cause' : RuntimeCause} {l l' : Nat} :
      cause.kind = cause'.kind → cause.isReturn = false → line l l' →
      Agree line same (.error ⟨cause, l⟩) (.error ⟨cause', l'⟩)

section Agree
variable {α β γ δ : Type} {line : Nat → Nat → Prop} {same : α → β → Prop} {same' : γ → δ → Prop}
  {l l' : Nat}

theorem Agree.bind {first : Except RuntimeError α} {first' : Except RuntimeError β}
    {next : α → Except RuntimeError γ} {next' : β → Except RuntimeError δ}
    (hfirst : Agree line same first first')
    (hnext : ∀ a b, same a b → Agree line same' (next a) (next' b)) :
    Agree line same' (first >>= next) (first' >>= next') := by
  cases hfirst with
  | ok h => exact hnext _ _ h
  | error hkind hcause hline => exact .error hkind hcause hline

theorem Agree.map {first : Except RuntimeError α} {first' : Except RuntimeError β}
    (h : Agree line same first first') {f : α → γ} {g : β → δ}
    (hf : ∀ a b, same a b → same' (f a) (g b)) :
    Agree line same' (first.map f) (first'.map g) := by
  cases h with
  | ok h => exact .ok (hf _ _ h)
  | error hkind hcause hline => exact .error hkind hcause hline

theorem Placed.agree {operation : Nat → Except RuntimeError α} (h : Placed operation)
    (hline : line l l') : Agree line Eq (operation l) (operation l') := by
  obtain ⟨result, hcause, hresult⟩ := h
  rw [hresult, hresult]
  cases result with
  | ok a => exact .ok rfl
  | error cause => exact .error rfl (hcause cause rfl) hline

theorem Value.agree_coerce (value : Value) (ty : Ty) (destination destination' : Destination)
    (hline : line l l') :
    Agree line Eq (value.coerce ty destination l) (value.coerce ty destination' l') := by
  unfold coerce
  cases value.convert? ty with
  | some converted => exact .ok rfl
  | none => exact .error rfl rfl hline

theorem Value.agree_ofInput (raw : String) (ty : Ty) (name name' : String) (hline : line l l') :
    Agree line Eq (ofInput raw ty name l) (ofInput raw ty name' l') := by
  unfold ofInput
  cases read? ty raw with
  | some value => exact .ok rfl
  | none => exact .error rfl rfl hline

end Agree
end Pseudocode
