import Mathlib.Algebra.Group.Int.Defs
import Pseudocode.Number.Entier

/-! An `ENTIER` and the integer it is: `Entier.ofInt?` finds the one equal to a number and refuses
the numbers that are out of range. A sum or a difference of the machine is the exact one if that is
in range. -/

namespace Pseudocode
namespace Entier
set_option autoImplicit false

theorem toInt_bounds (a : Entier) :
    -9223372036854775808 ≤ a.toInt ∧ a.toInt < 9223372036854775808 := by
  have hle := a.le_toInt
  have hlt := a.toInt_lt
  constructor <;> omega

theorem not_bounds_of_ofInt?_eq_none {n : Int} (h : ofInt? n = none) :
    ¬(-9223372036854775808 ≤ n ∧ n < 9223372036854775808) := by
  unfold ofInt? at h
  split at h
  · cases h
  · assumption

/-- The number is equal to an `ENTIER`. -/
def Fits (n : Int) : Prop := -2 ^ 63 ≤ n ∧ n < 2 ^ 63

instance (n : Int) : Decidable (Fits n) := inferInstanceAs (Decidable (_ ∧ _))

theorem fits_toInt (a : Entier) : Fits a.toInt := ⟨a.le_toInt, a.toInt_lt⟩

theorem toInt_ofInt {n : Int} (h : Fits n) : (Int64.ofInt n).toInt = n :=
  Int64.toInt_ofInt_of_le h.1 h.2

theorem ofInt?_of_fits {n : Int} (h : Fits n) : ofInt? n = some (Int64.ofInt n) := if_pos h

theorem ofInt?_eq_none_iff {n : Int} : ofInt? n = none ↔ ¬Fits n :=
  ⟨not_bounds_of_ofInt?_eq_none, fun h => if_neg h⟩

theorem ofInt?_toInt (a : Entier) : ofInt? a.toInt = some a := by
  rw [ofInt?_of_fits (fits_toInt a), Int64.ofInt_toInt]

theorem toInt_add_of_fits {a b : Entier} (h : Fits (a.toInt + b.toInt)) :
    (a + b).toInt = a.toInt + b.toInt := by
  rw [Int64.toInt_add]
  exact Int.bmod_eq_of_le h.1 h.2

theorem toInt_sub_of_fits {a b : Entier} (h : Fits (a.toInt - b.toInt)) :
    (a - b).toInt = a.toInt - b.toInt := by
  rw [Int64.toInt_sub]
  exact Int.bmod_eq_of_le h.1 h.2

end Entier
end Pseudocode
