import Mathlib
import Pseudocode.Number.Reel

/-! # Exact values of real numbers

A finite `REEL` is an exact number. What the bits are unpacked to by the machine is here the number
itself, and `Reel.parts?` is another way to write that number.

* `Reel.exactValue?_eq`: the parts of a `REEL` are those of its exact value.
* `Reel.exists_exact_iff`: exactly the finite ones are numbers.
* `Parts.exact_eq`: the number that the parts make, as a quotient of integers. -/

namespace Pseudocode
set_option autoImplicit false

open Float.Model (UnpackedFloat)
open Float.Model.UnpackedFloat

namespace Reel

/-- The number that is unpacked from the bits; an infinity and what is not a number are none. -/
def unpacked? : UnpackedFloat → Option ℚ
  | .finite sign mantissa exponent _ => some ((sign.apply mantissa : ℤ) * 2 ^ exponent)
  | .zero _ => some 0
  | .infinity _ => none
  | .notANumber => none

/-- The exact number that a `REEL` is. -/
def exactValue? (x : Reel) : Option ℚ := unpacked? x.toModel.unpack

/-- Exactly the finite ones are numbers. -/
theorem exists_exact_iff {x : Reel} : (∃ r, x.exactValue? = some r) ↔ x.isFinite = true := by
  have hunpacked : (unpacked? x.toModel.unpack).isSome = x.toModel.unpack.isFinite := by
    cases x.toModel.unpack <;> rfl
  rw [← Option.isSome_iff_exists, exactValue?, hunpacked]
  rfl

end Reel

namespace Parts

/-- The number that the parts make. -/
def exact (p : Parts) : ℚ := (p.signed p.mantissa : ℤ) * 2 ^ p.exponent

theorem den_pos (p : Parts) : 0 < p.den := Nat.pow_pos (by decide)

theorem signed_zero (p : Parts) : p.signed 0 = 0 := by
  unfold signed
  split <;> rfl

theorem signed_mul (p : Parts) (m n : Nat) : p.signed (m * n) = p.signed m * n := by
  unfold signed
  split <;> push_cast <;> ring

/-- The power of two as a quotient of which one side is one. -/
theorem two_zpow_mul_den (p : Parts) :
    (2 : ℚ) ^ p.exponent * p.den = (Nat.pow 2 p.exponent.toNat : ℕ) := by
  have hexponent : p.exponent + ((-p.exponent).toNat : ℤ) = p.exponent.toNat := by omega
  unfold den
  rw [Nat.pow_eq, Nat.pow_eq, Nat.cast_pow, Nat.cast_pow, Nat.cast_ofNat, ← zpow_natCast,
    ← zpow_natCast, ← zpow_add₀ two_ne_zero, hexponent]

theorem exact_eq (p : Parts) : p.exact = (p.signed p.num : ℤ) / p.den := by
  have hden : (p.den : ℚ) ≠ 0 := Nat.cast_ne_zero.2 p.den_pos.ne'
  rw [eq_div_iff hden, exact, mul_assoc, two_zpow_mul_den, num, signed_mul, Int.cast_mul,
    Int.cast_natCast]

end Parts

namespace Reel

/-! ## Fields of the bits -/

variable (b : UInt64)

theorem toNat_unpackExponent :
    (@unpackExponent .binary64 b.toBitVec).toNat
      = b.toNat / fractionRange % exponentRange := by
  rw [unpackExponent, BitVec.toNat_cast, BitVec.extractLsb_toNat, Nat.shiftRight_eq_div_pow]
  rfl

theorem toNat_unpackMantissa :
    (@unpackMantissa .binary64 b.toBitVec).toNat = b.toNat % fractionRange := by
  rw [unpackMantissa, BitVec.toNat_cast, BitVec.extractLsb_toNat, Nat.shiftRight_zero]
  rfl

theorem toNat_unpackSign :
    (@unpackSign .binary64 b.toBitVec).toNat
      = b.toNat / (fractionRange * exponentRange) % 2 := by
  rw [unpackSign, BitVec.toNat_cast, BitVec.extractLsb_toNat, Nat.shiftRight_eq_div_pow]
  rfl

theorem unpackSign_eq_zero_iff : @unpackSign .binary64 b.toBitVec = 0#1
    ↔ ¬b.toNat / (fractionRange * exponentRange) = 1 := by
  have hlt : b.toNat < 2 ^ 64 := b.toNat_lt
  have hsign := toNat_unpackSign b
  rw [← BitVec.toNat_inj, hsign, BitVec.toNat_ofNat]
  unfold fractionRange exponentRange
  omega

theorem toNat_append_unpackMantissa :
    (1#1 ++ @unpackMantissa .binary64 b.toBitVec).toNat
      = b.toNat % fractionRange + fractionRange := by
  have hlt := (@unpackMantissa .binary64 b.toBitVec).isLt
  rw [BitVec.toNat_append, ← Nat.shiftLeft_add_eq_or_of_lt hlt, toNat_unpackMantissa, Nat.add_comm]
  rfl

theorem unpackExponent_eq_iff {exponent : BitVec 11} :
    @unpackExponent .binary64 b.toBitVec = exponent
      ↔ b.toNat / fractionRange % exponentRange = exponent.toNat := by
  rw [← toNat_unpackExponent, BitVec.toNat_inj]

theorem apply_unpackSign (mantissa : Nat) (exponent : Int) (n : Nat) :
    (Sign.ofBitVec (@unpackSign .binary64 b.toBitVec)).apply n
      = Parts.signed ⟨b.toNat / (fractionRange * exponentRange) == 1, mantissa, exponent⟩ n := by
  rw [Sign.ofBitVec, Parts.signed]
  by_cases hsign : b.toNat / (fractionRange * exponentRange) = 1
  · rw [if_neg fun h => (unpackSign_eq_zero_iff b).1 h hsign, if_pos (beq_iff_eq.2 hsign)]
    rfl
  · rw [if_pos ((unpackSign_eq_zero_iff b).2 hsign), if_neg fun h => hsign (beq_iff_eq.1 h)]
    rfl

/-! ## Parts -/

variable {x : Reel}

theorem exactValue?_of_special (h : x.toBits.toNat / fractionRange % exponentRange = 2047) :
    x.exactValue? = none := by
  have hexponent := (@unpackExponent_eq_iff x.toBits (-1#11)).2 h
  have hbits : x.toModel.toBits = x.toBits := rfl
  unfold exactValue? Float.Model.unpack unpack
  rw [hbits]
  dsimp only
  rw [if_pos hexponent]
  split <;> rfl

theorem exactValue?_of_subnormal (h : x.toBits.toNat / fractionRange % exponentRange = 0) :
    x.exactValue? = some (Parts.exact ⟨x.toBits.toNat / (fractionRange * exponentRange) == 1,
      x.toBits.toNat % fractionRange, -1074⟩) := by
  have hexponent := (@unpackExponent_eq_iff x.toBits 0#11).2 h
  have hbits : x.toModel.toBits = x.toBits := rfl
  unfold exactValue? Float.Model.unpack unpack
  rw [hbits]
  dsimp only
  rw [if_neg (by rw [hexponent]; decide), if_pos hexponent]
  split
  · rename_i hmantissa
    -- nothing in the fraction: one of the two zeros
    have hzero : x.toBits.toNat % fractionRange = 0 := by
      rw [← toNat_unpackMantissa, hmantissa]
      rfl
    rw [unpacked?, Parts.exact, hzero, Parts.signed_zero, Int.cast_zero, zero_mul]
  · rw [unpacked?, hexponent, toNat_unpackMantissa, apply_unpackSign]
    rfl

theorem exactValue?_of_normal (hzero : x.toBits.toNat / fractionRange % exponentRange ≠ 0)
    (hspecial : x.toBits.toNat / fractionRange % exponentRange ≠ 2047) :
    x.exactValue? = some (Parts.exact ⟨x.toBits.toNat / (fractionRange * exponentRange) == 1,
      x.toBits.toNat % fractionRange + fractionRange,
      (x.toBits.toNat / fractionRange % exponentRange : ℕ) - 1075⟩) := by
  have hbits : x.toModel.toBits = x.toBits := rfl
  unfold exactValue? Float.Model.unpack unpack
  rw [hbits]
  dsimp only
  rw [if_neg fun h => hspecial (unpackExponent_eq_iff _ |>.1 h),
    if_neg fun h => hzero (unpackExponent_eq_iff _ |>.1 h), unpacked?, toNat_unpackExponent,
    toNat_append_unpackMantissa, apply_unpackSign]
  rfl

/-- The parts of a `REEL` are those of its exact value. -/
theorem exactValue?_eq (x : Reel) : x.exactValue? = x.parts?.map Parts.exact := by
  have hlast : x.toBits.toNat / fractionRange % exponentRange + 1 = exponentRange
      ↔ x.toBits.toNat / fractionRange % exponentRange = 2047 := by
    unfold exponentRange
    omega
  unfold parts?
  dsimp only
  split_ifs with hspecial hzero
  · rw [exactValue?_of_special (hlast.1 hspecial), Option.map_none]
  · rw [exactValue?_of_subnormal hzero, Option.map_some]
  · rw [exactValue?_of_normal hzero (hlast.not.1 hspecial), Option.map_some]

/-- A finite `REEL` has parts, and they make its exact value. -/
theorem exists_parts {x : Reel} (h : x.isFinite = true) :
    ∃ p, x.parts? = some p ∧ x.exactValue? = some p.exact := by
  obtain ⟨r, hr⟩ := exists_exact_iff.2 h
  rw [exactValue?_eq, Option.map_eq_some_iff] at hr
  obtain ⟨p, hp, -⟩ := hr
  exact ⟨p, hp, by rw [exactValue?_eq, hp, Option.map_some]⟩

end Reel
end Pseudocode
