import Mathlib.Data.Rat.Floor
import Pseudocode.Proofs.Number.Entier

/-! # Division rounded down

The machine rounds a quotient towards zero, and the language rounds it down. The two differ by one
where the quotient is negative and something is left, so the machine's results are corrected there.

* `floor_div_eq_fdiv`: the exact quotient rounded down, as a number and as an integer.
* `Entier.Exact`: no operation of the machine on the way to the corrected results leaves the range.
* `Entier.floorDiv?_eq`, `Entier.toInt_floorRemainder`: the corrected results are the exact ones. -/

namespace Pseudocode
set_option autoImplicit false

/-! ## Rounding -/

theorem floor_div_eq_fdiv_of_pos (a : Int) {b : Int} (hb : 0 < b) :
    ⌊(a : ℚ) / b⌋ = a.fdiv b := by
  have hle := Int.mul_fdiv_self_le (x := a) hb
  have hlt := Int.lt_mul_fdiv_self_add (x := a) hb
  have hpos : (0 : ℚ) < b := by exact_mod_cast hb
  rw [Int.floor_eq_iff, le_div_iff₀ hpos, div_lt_iff₀ hpos]
  constructor
  · rw [mul_comm]
    exact_mod_cast hle
  · rw [add_mul, one_mul, mul_comm]
    exact_mod_cast hlt

theorem floor_div_eq_fdiv (a b : Int) : ⌊(a : ℚ) / b⌋ = a.fdiv b := by
  rcases Int.lt_trichotomy b 0 with hb | rfl | hb
  · have hneg := floor_div_eq_fdiv_of_pos (-a) (Int.neg_pos_of_neg hb)
    rwa [Int.cast_neg, Int.cast_neg, neg_div_neg_eq, Int.neg_fdiv_neg] at hneg
  · simp
  · exact floor_div_eq_fdiv_of_pos a hb

/-- What is left of a division rounded down is zero or has the sign of the divisor, and it is
smaller than the divisor. -/
theorem fmod_cases (a : Int) {b : Int} (hb : b ≠ 0) :
    0 ≤ a.fmod b ∧ a.fmod b < b ∨ b < a.fmod b ∧ a.fmod b ≤ 0 := by
  rcases Int.lt_or_gt_of_ne hb with hneg | hpos
  · have hnonneg := Int.fmod_nonneg_of_pos (-a) (Int.neg_pos_of_neg hneg)
    have hlt := Int.fmod_lt_of_pos (-a) (Int.neg_pos_of_neg hneg)
    rw [Int.neg_fmod_neg] at hnonneg hlt
    exact .inr ⟨by omega, by omega⟩
  · exact .inl ⟨Int.fmod_nonneg_of_pos a hpos, Int.fmod_lt_of_pos a hpos⟩

/-- The quotient rounded down from the one rounded towards zero. -/
theorem fdiv_eq_tdiv_sub (a : Int) {b : Int} (hb : b ≠ 0) :
    a.fdiv b = a.tdiv b - if a.tmod b ≠ 0 ∧ ¬(a < 0 ↔ b < 0) then 1 else 0 := by
  have hdvd : b ∣ a ↔ a.tmod b = 0 := Int.dvd_iff_tmod_eq_zero
  have hsign : b.sign = if b < 0 then -1 else 1 := by
    rcases Int.lt_or_gt_of_ne hb with hneg | hpos
    · rw [Int.sign_eq_neg_one_of_neg hneg, if_pos hneg]
    · rw [Int.sign_eq_one_of_pos hpos, if_neg (Int.lt_asymm hpos)]
  rw [Int.fdiv_eq_tdiv]
  by_cases hrest : a.tmod b = 0
  · simp [hdvd, hrest]
  · simp only [hdvd, hrest, hsign, if_false, ne_eq, not_false_eq_true, true_and]
    split_ifs <;> omega

/-- What the quotient rounded down leaves, from what the quotient rounded towards zero leaves. -/
theorem fmod_eq_tmod_add (a : Int) {b : Int} (hb : b ≠ 0) :
    a.fmod b = a.tmod b + if a.tmod b ≠ 0 ∧ ¬(a.tmod b < 0 ↔ b < 0) then b else 0 := by
  have hsign : a.tmod b ≠ 0 → (a.tmod b < 0 ↔ a < 0) := by
    intro hrest
    rcases Int.lt_or_le a 0 with ha | ha
    · have hle := Int.tmod_nonneg b (Int.neg_nonneg_of_nonpos (Int.le_of_lt ha))
      rw [Int.neg_tmod] at hle
      omega
    · have hle := Int.tmod_nonneg b ha
      omega
  have htrunc := Int.tmod_def a b
  rw [Int.fmod_def, fdiv_eq_tdiv_sub a hb]
  by_cases hcase : a.tmod b ≠ 0 ∧ ¬(a < 0 ↔ b < 0)
  · rw [if_pos hcase, if_pos ⟨hcase.1, by rw [hsign hcase.1]; exact hcase.2⟩, Int.mul_sub,
      Int.mul_one]
    omega
  · rw [if_neg hcase, if_neg fun h => hcase ⟨h.1, by rw [← hsign h.1]; exact h.2⟩, Int.sub_zero]
    omega

theorem natAbs_tdiv_le_half (a : Int) {b : Int} (hb : 1 < b.natAbs) :
    (a.tdiv b).natAbs ≤ a.natAbs / 2 := by
  rw [Int.natAbs_tdiv]
  exact Nat.div_le_div_left hb (by decide)

namespace Entier

variable {a b : Entier}

/-! ## The operations of the machine -/

theorem toInt_ne_zero (hb : b ≠ 0) : b.toInt ≠ 0 :=
  fun h => hb (Int64.toInt_inj.1 h)

theorem oppose_iff : a.oppose b ↔ ¬(a.toInt < 0 ↔ b.toInt < 0) := by
  have hzero : (0 : Int64).toInt = 0 := rfl
  simp only [oppose, bne_iff_ne, ne_eq, decide_eq_decide, Int64.lt_iff_toInt_lt, hzero]

theorem correct_iff {r : Entier} : (r != 0 && a.oppose b) = true ↔
    r.toInt ≠ 0 ∧ ¬(a.toInt < 0 ↔ b.toInt < 0) := by
  have hzero : (0 : Int64).toInt = 0 := rfl
  rw [Bool.and_eq_true, oppose_iff, bne_iff_ne, ne_eq, ← Int64.toInt_inj, hzero]

/-- Only the smallest integer by `-1` has a quotient that is out of range. -/
theorem fits_tdiv_iff (hb : b ≠ 0) :
    Fits (a.toInt.tdiv b.toInt) ↔ ¬(a.toInt = -2 ^ 63 ∧ b.toInt = -1) := by
  have hzero := toInt_ne_zero hb
  obtain ⟨hlow, hhigh⟩ := fits_toInt a
  constructor
  · rintro hfits ⟨ha, hb⟩
    rw [ha, hb] at hfits
    exact absurd hfits (by unfold Fits; decide)
  · intro hcase
    by_cases hone : 1 < b.toInt.natAbs
    · have hle := natAbs_tdiv_le_half a.toInt hone
      constructor <;> omega
    · rcases (by omega : b.toInt = 1 ∨ b.toInt = -1) with hb | hb
      · rw [hb, Int.tdiv_one]
        exact ⟨hlow, hhigh⟩
      · rw [hb, Int.tdiv_neg, Int.tdiv_one]
        constructor <;> omega

theorem fdiv_fits_iff (hb : b ≠ 0) :
    Fits (a.toInt.fdiv b.toInt) ↔ Fits (a.toInt.tdiv b.toInt) := by
  have hzero := toInt_ne_zero hb
  rw [fdiv_eq_tdiv_sub a.toInt hzero]
  by_cases hcase : a.toInt.tmod b.toInt ≠ 0 ∧ ¬(a.toInt < 0 ↔ b.toInt < 0)
  · rw [if_pos hcase]
    have hone : 1 < b.toInt.natAbs := by
      by_contra hle
      rcases (by omega : b.toInt = 1 ∨ b.toInt = -1) with hb | hb <;> simp [hb] at hcase
    have hle := natAbs_tdiv_le_half a.toInt hone
    obtain ⟨hlow, hhigh⟩ := fits_toInt a
    constructor <;> exact fun _ => ⟨by omega, by omega⟩
  · rw [if_neg hcase, Int.sub_zero]

/-- No operation of the machine that follows the checked division or the checked remainder has an
exact result that is out of range. -/
structure Exact (a b : Entier) : Prop where
  /-- The remainder `a % b`, which the machine computes by a division. -/
  remainder {q : Entier} (h : a.quotient? b = some q) :
    Fits (a.toInt.tdiv b.toInt) ∧ (a % b).toInt = a.toInt.tmod b.toInt
  /-- The correction of the quotient. -/
  predecessor {q : Entier} (h : a.quotient? b = some q) (hrest : a % b ≠ 0) (hsign : a.oppose b) :
    Fits (q.toInt - 1)
  /-- The correction of the remainder. -/
  sum {r : Entier} (h : a.remainder? b = some r) (hrest : r ≠ 0) (hsign : r.oppose b) :
    Fits (r.toInt + b.toInt)

theorem exact_of_ne_zero (hb : b ≠ 0) : Exact a b where
  remainder {q} h := by
    have hq : q.toInt = a.toInt.tdiv b.toInt := toInt_of_ofInt? h
    exact ⟨hq ▸ fits_toInt q, Int64.toInt_mod a b⟩
  predecessor {q} h hrest hsign := by
    have hq : q.toInt = a.toInt.tdiv b.toInt := toInt_of_ofInt? h
    have hfits := (fdiv_fits_iff hb).2 (hq ▸ fits_toInt q)
    have hcase := correct_iff.1 (by rw [Bool.and_eq_true, bne_iff_ne]; exact ⟨hrest, hsign⟩)
    rw [Int64.toInt_mod] at hcase
    rw [fdiv_eq_tdiv_sub _ (toInt_ne_zero hb), if_pos hcase] at hfits
    rwa [hq]
  sum {r} _ _ hsign := by
    have hcase := oppose_iff.1 hsign
    obtain ⟨hlowr, hhighr⟩ := fits_toInt r
    obtain ⟨hlowb, hhighb⟩ := fits_toInt b
    constructor <;> omega

/-! ## The corrected results -/

theorem floorDiv?_eq (hb : b ≠ 0) : a.floorDiv? b = ofInt? (a.toInt.fdiv b.toInt) := by
  have hzero := toInt_ne_zero hb
  rw [floorDiv?]
  cases h : a.quotient? b with
  | none =>
    have hout := ofInt?_eq_none_iff.1 h
    rw [← fdiv_fits_iff hb] at hout
    exact (ofInt?_eq_none_iff.2 hout).symm
  | some q =>
    have hq : q.toInt = a.toInt.tdiv b.toInt := toInt_of_ofInt? h
    have hrest := (exact_of_ne_zero hb).remainder h
    rw [Option.map_some, fdiv_eq_tdiv_sub _ hzero, ← hq, ← hrest.2]
    split_ifs with hcase hexact hexact
    · rw [Bool.and_eq_true, bne_iff_ne] at hcase
      have hpred : (q - 1).toInt = q.toInt - 1 :=
        toInt_sub_of_fits (b := 1) ((exact_of_ne_zero hb).predecessor h hcase.1 hcase.2)
      rw [← hpred, ofInt?_toInt]
    · exact absurd (correct_iff.1 hcase) hexact
    · exact absurd (correct_iff.2 hexact) hcase
    · rw [Int.sub_zero, ofInt?_toInt]

theorem toInt_floorRemainder (hb : b ≠ 0) :
    (a.floorRemainder b).toInt = a.toInt.fmod b.toInt := by
  have hzero := toInt_ne_zero hb
  rw [floorRemainder, fmod_eq_tmod_add _ hzero]
  cases h : a.quotient? b with
  | none =>
    have hedge := ofInt?_eq_none_iff.1 h
    rw [fits_tdiv_iff hb, not_not] at hedge
    have hrest : a.toInt.tmod b.toInt = 0 := by rw [hedge.2]; simp
    simp [remainder?, h, hrest]
  | some q =>
    have hrest := (exact_of_ne_zero hb).remainder h
    have hr : a.remainder? b = some (a % b) := by rw [remainder?, h, Option.map_some]
    rw [hr, Option.getD_some, ← hrest.2]
    split_ifs with hcase hexact hexact
    · rw [Bool.and_eq_true, bne_iff_ne] at hcase
      exact toInt_add_of_fits ((exact_of_ne_zero hb).sum hr hcase.1 hcase.2)
    · exact absurd (correct_iff.1 hcase) hexact
    · exact absurd (correct_iff.2 hexact) hcase
    · rw [Int.add_zero]

end Entier
end Pseudocode
