import Pseudocode.Value.Operation
import Pseudocode.Proofs.Number.Division

/-! # Arithmetic of integers

* `Value.binary_entiers`: an operator between two integers gives the exact result, or refuses it. -/

namespace Pseudocode
set_option autoImplicit false

/-! ## Exact results -/

/-- The mathematical result of an operator of integers. Division is rounded down, and a division by
zero, whose result is not looked at, gives zero. -/
def BinOp.ideal? (op : BinOp) (a b : Int) : Option Int :=
  match op with
  | .add => some (a + b)
  | .sub => some (a - b)
  | .mul => some (a * b)
  | .intDiv => some ⌊(a : ℚ) / b⌋
  | .mod => some (a - b * ⌊(a : ℚ) / b⌋)
  | _ => none

/-- The operators that divide integers. -/
def BinOp.divides : BinOp → Bool
  | .intDiv | .mod => true
  | _ => false

/-- The outcome of a computation whose exact result is known: that number, or an overflow. -/
structure ExactOr (outcome : Except RuntimeError Value) (n : Int) (line : Nat) : Prop where
  value (h : Entier.Fits n) : ∃ c : Entier, c.toInt = n ∧ outcome = .ok (.integer c)
  overflow : outcome = .error ⟨.overflow, line⟩ ↔ ¬Entier.Fits n

theorem ExactOr.ne_error {outcome : Except RuntimeError Value} {n : Int} {line : Nat}
    (h : ExactOr outcome n line) {cause : RuntimeCause} (hcause : cause ≠ .overflow) :
    outcome ≠ .error ⟨cause, line⟩ := by
  intro herror
  by_cases hfits : Entier.Fits n
  · obtain ⟨c, -, hvalue⟩ := h.value hfits
    rw [hvalue] at herror
    cases herror
  · rw [h.overflow.2 hfits] at herror
    cases herror
    exact hcause rfl

theorem exactOr_ofInt? (n : Int) (line : Nat) :
    ExactOr ((orOverflow (Entier.ofInt? n) line).map .integer) n line := by
  by_cases h : Entier.Fits n
  · rw [Entier.ofInt?_of_fits h]
    exact ⟨fun _ => ⟨_, Entier.toInt_ofInt h, rfl⟩, by simp [orOverflow, Except.map, h]⟩
  · rw [Entier.ofInt?_eq_none_iff.2 h]
    exact ⟨fun hfits => absurd hfits h, by simp [orOverflow, Except.map, h]⟩

theorem Entier.floorDiv_exactOr {a b : Entier} (line : Nat) (hb : b ≠ 0) :
    ExactOr ((a.floorDiv b line).map .integer) ⌊(a.toInt : ℚ) / b.toInt⌋ line := by
  rw [Entier.floorDiv, if_neg hb, Entier.floorDiv?_eq hb, floor_div_eq_fdiv]
  exact exactOr_ofInt? _ line

theorem Entier.toInt_floorRemainder_floor {a b : Entier} (hb : b ≠ 0) :
    (a.floorRemainder b).toInt = a.toInt - b.toInt * ⌊(a.toInt : ℚ) / b.toInt⌋ := by
  rw [Entier.toInt_floorRemainder hb, floor_div_eq_fdiv, Int.fmod_def]

theorem Entier.floorMod_exactOr {a b : Entier} (line : Nat) (hb : b ≠ 0) :
    ExactOr ((a.floorMod b line).map .integer)
      (a.toInt - b.toInt * ⌊(a.toInt : ℚ) / b.toInt⌋) line := by
  have hrest := Entier.toInt_floorRemainder_floor (a := a) hb
  have hfits : Entier.Fits (a.toInt - b.toInt * ⌊(a.toInt : ℚ) / b.toInt⌋) :=
    hrest ▸ Entier.fits_toInt _
  have hresult : a.floorMod b line = .ok (a.floorRemainder b) := by
    rw [Entier.floorMod, if_neg hb]
  rw [hresult]
  exact ⟨fun _ => ⟨_, hrest, rfl⟩, by simp [hfits, Except.map]⟩

/-- What is left has the sign of the divisor, unless it is zero, and is smaller. -/
theorem remainder_sign (a : Int) {b : Int} (hb : b ≠ 0) :
    (a.fmod b = 0 ∨ (a.fmod b).sign = b.sign) ∧ (a.fmod b).natAbs < b.natAbs := by
  rcases fmod_cases a hb with ⟨hle, hlt⟩ | ⟨hlt, hle⟩
  · refine ⟨?_, by omega⟩
    rcases Int.lt_or_eq_of_le hle with hpos | hzero
    · exact .inr (by rw [Int.sign_eq_one_of_pos hpos, Int.sign_eq_one_of_pos (by omega)])
    · exact .inl hzero.symm
  · refine ⟨?_, by omega⟩
    rcases Int.lt_or_eq_of_le hle with hneg | hzero
    · exact .inr (by rw [Int.sign_eq_neg_one_of_neg hneg, Int.sign_eq_neg_one_of_neg (by omega)])
    · exact .inl hzero

/-! ## Operators -/

namespace Value

variable {op : BinOp} {a b : Entier} {n : Int}

theorem binary_exactOr (line : Nat) (hop : op.ideal? a.toInt b.toInt = some n)
    (hzero : ¬(op.divides ∧ b = 0)) :
    ExactOr (binary op (.integer a) (.integer b) line) n line := by
  cases op with
  | add | sub | mul =>
    cases hop
    exact exactOr_ofInt? _ line
  | intDiv =>
    cases hop
    exact Entier.floorDiv_exactOr line fun hb => hzero ⟨rfl, hb⟩
  | mod =>
    cases hop
    exact Entier.floorMod_exactOr line fun hb => hzero ⟨rfl, hb⟩
  | _ => cases hop

theorem binary_by_zero (line : Nat) (hop : op.divides) (hb : b = 0) :
    binary op (.integer a) (.integer b) line = .error ⟨.divisionByZero, line⟩ := by
  subst hb
  cases op <;> first | rfl | cases hop

theorem binary_entiers (line : Nat) (hop : op.ideal? a.toInt b.toInt = some n) :
    (binary op (.integer a) (.integer b) line = .error ⟨.divisionByZero, line⟩ ↔
      op.divides ∧ b = 0) ∧
    (¬(op.divides ∧ b = 0) → ExactOr (binary op (.integer a) (.integer b) line) n line) ∧
    (op = .mod → b ≠ 0 → Entier.Fits n ∧
      (n = 0 ∨ n.sign = b.toInt.sign) ∧ n.natAbs < b.toInt.natAbs) ∧
    (b ≠ 0 → Entier.Exact a b) := by
  refine ⟨⟨fun hresult => ?_, fun h => binary_by_zero line h.1 h.2⟩, binary_exactOr line hop,
    ?_, Entier.exact_of_ne_zero⟩
  · by_contra hcase
    exact (binary_exactOr line hop hcase).ne_error RuntimeCause.noConfusion hresult
  · rintro rfl hb
    cases hop
    rw [← Entier.toInt_floorRemainder_floor hb]
    refine ⟨Entier.fits_toInt _, ?_⟩
    rw [Entier.toInt_floorRemainder hb]
    exact remainder_sign a.toInt (Entier.toInt_ne_zero hb)

theorem binary_entiers_smallest :
    binary .intDiv (.integer Int64.minValue) (.integer (-1)) 1 = .error ⟨.overflow, 1⟩ ∧
    ∃ c : Entier, c.toInt = -2 ∧
      binary .mod (.integer Int64.minValue) (.integer (-3)) 1 = .ok (.integer c) := by
  have hdiv : BinOp.intDiv.ideal? Int64.minValue.toInt (-1 : Int64).toInt = some (2 ^ 63) := by
    rw [BinOp.ideal?, floor_div_eq_fdiv]
    decide
  have hmod : BinOp.mod.ideal? Int64.minValue.toInt (-3 : Int64).toInt = some (-2) := by
    rw [BinOp.ideal?, floor_div_eq_fdiv]
    decide
  exact ⟨((binary_entiers 1 hdiv).2.1 (by decide)).overflow.2 (by decide),
    ((binary_entiers 1 hmod).2.1 (by decide)).value (by decide)⟩

end Value
end Pseudocode
