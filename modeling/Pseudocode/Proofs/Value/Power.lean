import Pseudocode.Builtin.Apply
import Pseudocode.Proofs.Value.Arithmetic

/-! # Powers of integers

The exponent of an `ENTIER` must have 32 bits, although the powers of `-1`, `0` and `1` stay in
range for every exponent.

* `Builtin.power_entier`: the power is exact or refused, unless the exponent of one of these three
  bases has more than 32 bits. -/

namespace Pseudocode
set_option autoImplicit false

/-! ## Growth -/

theorem not_fits_pow {b : Int} (hb : 1 < b.natAbs) {n : Nat} (hn : 64 ≤ n) :
    ¬Entier.Fits (b ^ n) := by
  have hgrow : 2 ^ 64 ≤ (b ^ n).natAbs := by
    rw [Int.natAbs_pow]
    calc 2 ^ 64 ≤ 2 ^ n := Nat.pow_le_pow_right (by decide) hn
      _ ≤ b.natAbs ^ n := Nat.pow_le_pow_left hb n
  rintro ⟨hlow, hhigh⟩
  omega

/-- The powers of `-1`, `0` and `1` only depend on whether the exponent is even. -/
theorem pow_eq_pow_parity {b : Int} (hb : b.natAbs ≤ 1) {n : Nat} (hn : n ≠ 0) :
    b ^ (2 - n % 2) = b ^ n := by
  have hpos : 2 - n % 2 ≠ 0 := by omega
  rcases (by omega : b = -1 ∨ b = 0 ∨ b = 1) with rfl | rfl | rfl
  · have hparity : (2 - n % 2) % 2 = n % 2 := by omega
    rw [neg_one_pow_eq_pow_mod_two, hparity, ← neg_one_pow_eq_pow_mod_two]
  · rw [zero_pow hpos, zero_pow hn]
  · rw [one_pow, one_pow]

theorem fits_pow_of_natAbs_le_one {b : Int} (hb : b.natAbs ≤ 1) (n : Nat) :
    Entier.Fits (b ^ n) := by
  have hle : (b ^ n).natAbs ≤ 1 := by
    rw [Int.natAbs_pow]
    exact pow_le_one₀ (Nat.zero_le _) hb
  constructor <;> omega

theorem Entier.pow?_eq (b : Entier) (n : Nat) : b.pow? n = ofInt? (b.toInt ^ n) := by
  rw [pow?]
  split_ifs with hshort hsmall
  · rfl
  · exact congrArg ofInt? (pow_eq_pow_parity hsmall (by omega))
  · exact (ofInt?_eq_none_iff.2 (not_fits_pow (by omega) (by omega))).symm

/-! ## The function -/

namespace Builtin

variable (b n : Entier) (line : Nat)

theorem power_entier_eq : power (.integer b) (.integer n) line = (do
    let exponent ← n.exponent line
    (orOverflow (Entier.ofInt? (b.toInt ^ exponent)) line).map .integer) := by
  simp only [← Entier.pow?_eq]
  rfl

theorem power_entier_negative (h : n.toInt < 0) :
    power (.integer b) (.integer n) line = .error ⟨.domainError (.negativeExponent n), line⟩ := by
  rw [power_entier_eq, Entier.exponent, if_pos h]
  rfl

theorem power_entier_long (h : 4294967295 < n.toInt) :
    power (.integer b) (.integer n) line = .error ⟨.overflow, line⟩ := by
  have hlong : maxExponent < n.toInt.toNat := by rw [maxExponent]; omega
  rw [power_entier_eq, Entier.exponent, if_neg (by omega), if_pos hlong]
  rfl

theorem power_entier_short (hsign : 0 ≤ n.toInt) (hshort : n.toInt ≤ 4294967295) :
    ExactOr (power (.integer b) (.integer n) line) (b.toInt ^ n.toInt.toNat) line := by
  have hlong : ¬maxExponent < n.toInt.toNat := by rw [maxExponent]; omega
  rw [power_entier_eq, Entier.exponent, if_neg (by omega), if_neg hlong]
  exact exactOr_ofInt? _ line

/-- A negative exponent is refused by its own error, and every other power is exact or refused, for
the exponents of 32 bits and for the bases whose powers grow. A longer exponent is refused whatever
the base, also for `-1`, `0` and `1`, whose powers are all in range. -/
theorem power_entier :
    (power (.integer b) (.integer n) line = .error ⟨.domainError (.negativeExponent n), line⟩ ↔
      n.toInt < 0) ∧
    (0 ≤ n.toInt → n.toInt ≤ 4294967295 ∨ 1 < b.toInt.natAbs →
      ExactOr (power (.integer b) (.integer n) line) (b.toInt ^ n.toInt.toNat) line) ∧
    (4294967295 < n.toInt → b.toInt.natAbs ≤ 1 →
      Entier.Fits (b.toInt ^ n.toInt.toNat) ∧
      power (.integer b) (.integer n) line = .error ⟨.overflow, line⟩) := by
  refine ⟨⟨fun h => ?_, power_entier_negative b n line⟩, fun hsign hcase => ?_,
    fun hlong hbase => ⟨fits_pow_of_natAbs_le_one hbase _, power_entier_long b n line hlong⟩⟩
  · by_contra hsign
    by_cases hshort : n.toInt ≤ 4294967295
    · exact (power_entier_short b n line (by omega) hshort).ne_error RuntimeCause.noConfusion h
    · rw [power_entier_long b n line (by omega)] at h
      cases h
  · by_cases hshort : n.toInt ≤ 4294967295
    · exact power_entier_short b n line hsign hshort
    · have hout := not_fits_pow (hcase.resolve_left hshort) (by omega : 64 ≤ n.toInt.toNat)
      rw [power_entier_long b n line (by omega)]
      exact ⟨fun hfits => absurd hfits hout, iff_of_true rfl hout⟩

theorem power_entier_smallest : ∃ c : Entier, c.toInt = -2 ^ 63 ∧
    power (.integer (-2)) (.integer 63) 1 = .ok (.integer c) :=
  ((power_entier (-2) 63 1).2.1 (by decide) (.inl (by decide))).value (by decide)

/-- The first exponent of more than 32 bits. -/
theorem power_entier_one_long :
    power (.integer 1) (.integer 4294967296) 1 = .error ⟨.overflow, 1⟩ ∧
    (1 : Int) ^ 4294967296 = 1 ∧ Entier.Fits 1 :=
  ⟨power_entier_long 1 4294967296 1 (by decide), one_pow _, by decide⟩

end Builtin
end Pseudocode
