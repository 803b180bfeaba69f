import Pseudocode.Machine.Loop
import Pseudocode.Proofs.Number.Division

/-! # How often a loop over integers turns

The evaluator tests each integer against the bound, adds the step, and stops where the sum is no
`ENTIER`. The number of turns can be computed beforehand, with unbounded integers:

* `turnCount_succ`, `turnCount_eq_zero`: one turn less from the next integer on, none past the end.
* `lt_turnCount_iff`: the turns are those whose integer is not past the bound.
* `not_inRange_of_add?_eq_none`: where there is no next `ENTIER`, it would be past the bound. -/

namespace Pseudocode
set_option autoImplicit false
open Run

/-! ## The count -/

/-- The number of integers from `first` on by `step` that are not past `last`. -/
def turnCount (first last step : Int) : Nat :=
  ((last - first).fdiv step + 1).toNat

theorem turnCount_neg (first last step : Int) :
    turnCount (-first) (-last) (-step) = turnCount first last step := by
  have hsub : -last - -first = -(last - first) := by omega
  unfold turnCount
  rw [hsub, Int.neg_fdiv_neg]

theorem turnCount_succ_of_pos {first last step : Int} (hstep : 0 < step) (h : first ≤ last) :
    turnCount first last step = turnCount (first + step) last step + 1 := by
  have hsub : last - (first + step) = last - first + -1 * step := by omega
  have hnonneg : 0 ≤ (last - first) / step := Int.ediv_nonneg (by omega) (by omega)
  unfold turnCount
  rw [hsub, Int.fdiv_eq_ediv_of_nonneg _ (by omega), Int.fdiv_eq_ediv_of_nonneg _ (by omega),
    Int.add_mul_ediv_right _ _ (by omega)]
  omega

theorem turnCount_eq_zero_of_pos {first last step : Int} (hstep : 0 < step) (h : last < first) :
    turnCount first last step = 0 := by
  have hneg : (last - first) / step < 0 := Int.ediv_neg_of_neg_of_pos (by omega) hstep
  unfold turnCount
  rw [Int.fdiv_eq_ediv_of_nonneg _ (by omega)]
  omega

theorem turnCount_succ {value last step : Int} (h : InRange value last step) :
    turnCount value last step = turnCount (value + step) last step + 1 := by
  rcases h with ⟨hstep, hle⟩ | ⟨hstep, hle⟩
  · exact turnCount_succ_of_pos hstep hle
  · have hneg : -value + -step = -(value + step) := by omega
    rw [← turnCount_neg value, ← turnCount_neg (value + step), ← hneg]
    exact turnCount_succ_of_pos (by omega) (by omega)

theorem turnCount_eq_zero {value last step : Int} (hstep : step ≠ 0)
    (h : ¬InRange value last step) : turnCount value last step = 0 := by
  unfold InRange at h
  rcases Int.lt_or_gt_of_ne hstep with hneg | hpos
  · rw [← turnCount_neg]
    exact turnCount_eq_zero_of_pos (by omega) (by omega)
  · exact turnCount_eq_zero_of_pos hpos (by omega)

theorem toInt_turnCount (first last step : Int) :
    (turnCount first last step : Int) = max 0 (⌊((last - first : Int) : ℚ) / step⌋ + 1) := by
  rw [turnCount, Int.toNat_eq_max, floor_div_eq_fdiv, max_comm]

/-! ## The integers -/

theorem not_inRange_add_mul {first last step : Int} (h : ¬InRange first last step) (i : Nat) :
    ¬InRange (first + i * step) last step := by
  rintro (⟨hstep, hle⟩ | ⟨hstep, hle⟩)
  · have hnonneg := Int.mul_nonneg (Int.natCast_nonneg i) (Int.le_of_lt hstep)
    omega
  · have hnonpos := Int.mul_nonpos_of_nonneg_of_nonpos (Int.natCast_nonneg i) (Int.le_of_lt hstep)
    omega

theorem lt_turnCount_iff {first last step : Int} (hstep : step ≠ 0) (i : Nat) :
    i < turnCount first last step ↔ InRange (first + i * step) last step := by
  induction i generalizing first with
  | zero =>
    by_cases h : InRange first last step
    · simp [turnCount_succ h, h]
    · simp [turnCount_eq_zero hstep h, h]
  | succ i ih =>
    by_cases h : InRange first last step
    · have hnext : first + ((i + 1 : Nat) : Int) * step = first + step + i * step := by
        rw [Int.natCast_succ, Int.add_mul, Int.one_mul]
        omega
      rw [turnCount_succ h, Nat.add_lt_add_iff_right, ih, hnext]
    · have hout := not_inRange_add_mul h (i + 1)
      simp only [turnCount_eq_zero hstep h, Nat.not_lt_zero, hout]

/-- The integers of a loop lie between its bounds. -/
theorem fits_of_inRange {first last : Entier} {step : Int} {i : Nat}
    (h : InRange (first.toInt + i * step) last.toInt step) :
    Entier.Fits (first.toInt + i * step) := by
  obtain ⟨hlowf, hhighf⟩ := first.fits_toInt
  obtain ⟨hlowl, hhighl⟩ := last.fits_toInt
  rcases h with ⟨hstep, hle⟩ | ⟨hstep, hle⟩
  · have hnonneg := Int.mul_nonneg (Int.natCast_nonneg i) (Int.le_of_lt hstep)
    constructor <;> omega
  · have hnonpos := Int.mul_nonpos_of_nonneg_of_nonpos (Int.natCast_nonneg i) (Int.le_of_lt hstep)
    constructor <;> omega

/-! ## The next integer -/

/-- Where there is no next `ENTIER`, the next integer is past every bound that is one. -/
theorem not_inRange_of_add?_eq_none {value last step : Entier} (h : value.add? step = none) :
    ¬InRange (value.toInt + step.toInt) last.toInt step.toInt := by
  have hsum := Entier.not_bounds_of_ofInt?_eq_none h
  have hvalue := value.toInt_bounds
  have hlast := last.toInt_bounds
  unfold InRange
  omega

end Pseudocode
