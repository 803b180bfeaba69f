import Mathlib.Algebra.Order.Group.Abs
import Mathlib.Algebra.Ring.Int.Parity
import Mathlib.Data.Rat.Floor
import Mathlib.Tactic.Linarith
import Mathlib.Tactic.SplitIfs
import Pseudocode.Number.Fixed

/-! # Rounding to the nearest

The nearest integer of a number is told by its distance, and of two that are as near it is the even
one. The nearest decimal of some places is the nearest integer of the number scaled by them.

* `NearestInt.unique`: only one integer is nearest.
* `nearestInt_roundToEven`: a quotient of integers is rounded to its nearest one.
* `NearestInt.decimal`: the error of a decimal is at most half of its last place. -/

namespace Pseudocode
set_option autoImplicit false

/-! ## Integers -/

/-- An integer nearest to a number; a half goes to the even neighbour. -/
structure NearestInt (r : ℚ) (k : ℤ) : Prop where
  near : |k - r| ≤ 1 / 2
  tie : |k - r| = 1 / 2 → Even k

namespace NearestInt
variable {r : ℚ} {k k' : ℤ}

theorem neg (h : NearestInt r k) : NearestInt (-r) (-k) := by
  have hdistance : |((-k : ℤ) : ℚ) - -r| = |k - r| := by
    rw [Int.cast_neg, neg_sub_neg, abs_sub_comm]
  exact ⟨hdistance ▸ h.near, fun htie => (h.tie (hdistance ▸ htie)).neg⟩

theorem le (h : NearestInt r k) (h' : NearestInt r k') : k ≤ k' := by
  by_contra hlt
  obtain ⟨hlow, hhigh⟩ := abs_le.1 h.near
  obtain ⟨hlow', hhigh'⟩ := abs_le.1 h'.near
  have hsucc : (k' : ℚ) + 1 ≤ k := by exact_mod_cast Int.not_le.1 hlt
  -- the number is in the middle of two neighbours, which cannot both be even
  have hk : k = k' + 1 := by
    have hle : (k : ℚ) ≤ k' + 1 := by linarith
    exact_mod_cast le_antisymm hle hsucc
  have heven := h.tie (by rw [abs_of_nonneg (by linarith)]; linarith)
  have heven' := h'.tie (by rw [abs_of_nonpos (by linarith)]; linarith)
  rw [hk, Int.even_add_one] at heven
  exact heven heven'

/-- Only one integer is nearest in this way. -/
theorem unique (h : NearestInt r k) (h' : NearestInt r k') : k = k' :=
  le_antisymm (h.le h') (h'.le h)

end NearestInt

theorem roundToEven_bounds (num : Nat) {den : Nat} (hden : 0 < den) :
    2 * num ≤ 2 * (roundToEven num den * den) + den ∧
      2 * (roundToEven num den * den) ≤ 2 * num + den := by
  have hdivision := Nat.div_add_mod' num den
  have hlt := Nat.mod_lt num hden
  have hsucc := Nat.add_one_mul (num / den) den
  unfold roundToEven
  dsimp only
  split_ifs <;> omega

theorem roundToEven_tie (num : Nat) {den : Nat} (hden : 0 < den)
    (h : 2 * num = 2 * (roundToEven num den * den) + den ∨
      2 * (roundToEven num den * den) = 2 * num + den) : roundToEven num den % 2 = 0 := by
  have hdivision := Nat.div_add_mod' num den
  have hlt := Nat.mod_lt num hden
  have hsucc := Nat.add_one_mul (num / den) den
  unfold roundToEven at h ⊢
  dsimp only at h ⊢
  split_ifs at h ⊢ <;> omega

theorem nearestInt_roundToEven (num : Nat) {den : Nat} (hden : 0 < den) :
    NearestInt ((num : ℚ) / den) (roundToEven num den) := by
  have hpos : (0 : ℚ) < den := by exact_mod_cast hden
  have hdistance : |((roundToEven num den : ℤ) : ℚ) - num / den|
      = |(roundToEven num den * den : ℚ) - num| / den := by
    rw [← abs_of_pos hpos, ← abs_div, abs_of_pos hpos, sub_div, mul_div_cancel_right₀ _ hpos.ne',
      Int.cast_natCast]
  obtain ⟨hlow, hhigh⟩ := roundToEven_bounds num hden
  have hlowq : (2 : ℚ) * num ≤ 2 * (roundToEven num den * den) + den := by exact_mod_cast hlow
  have hhighq : (2 : ℚ) * (roundToEven num den * den) ≤ 2 * num + den := by exact_mod_cast hhigh
  constructor
  · rw [hdistance, div_le_iff₀ hpos, abs_le]
    constructor <;> linarith
  · intro htie
    rw [hdistance, div_eq_iff hpos.ne'] at htie
    rw [Int.even_coe_nat, Nat.even_iff]
    refine roundToEven_tie num hden ?_
    rcases abs_cases ((roundToEven num den * den : ℚ) - num) with ⟨habs, -⟩ | ⟨habs, -⟩
    · rw [habs] at htie
      have hupper : (2 : ℚ) * (roundToEven num den * den) = 2 * num + den := by linarith
      exact .inr (by exact_mod_cast hupper)
    · rw [habs] at htie
      have hlower : (2 : ℚ) * num = 2 * (roundToEven num den * den) + den := by linarith
      exact .inl (by exact_mod_cast hlower)

/-! ## Decimals -/

/-- A decimal of at most so many places that is nearest to a number. -/
structure NearestDecimal (places : Nat) (r d : ℚ) : Prop where
  near : |d - r| ≤ 1 / 2 / 10 ^ places
  grid : ∃ k : ℤ, d = k / 10 ^ places ∧ NearestInt (r * 10 ^ places) k

theorem NearestInt.decimal {places : Nat} {r : ℚ} {k : ℤ} (h : NearestInt (r * 10 ^ places) k) :
    NearestDecimal places r (k / 10 ^ places) := by
  have hpos : (0 : ℚ) < 10 ^ places := by positivity
  refine ⟨?_, k, rfl, h⟩
  have hdistance : (k : ℚ) / 10 ^ places - r = (k - r * 10 ^ places) / 10 ^ places := by
    rw [sub_div, mul_div_cancel_right₀ _ hpos.ne']
  rw [hdistance, abs_div, abs_of_pos hpos]
  exact div_le_div_of_nonneg_right h.near hpos.le

end Pseudocode
