import Mathlib.Data.List.TakeWhile
import Mathlib.Data.Rat.Floor
import Mathlib.Tactic.Positivity
import Mathlib.Tactic.Ring
import Pseudocode.Number.Fixed
import Pseudocode.Proofs.Number.Numeral

/-! # Decimals with a point

The canonical form of a decimal: no superfluous zero on either side of the point, at least one
digit on both, and no sign for zero. A number has at most one such form.

* `Numeral.eq_toDigits`: without a superfluous zero there is one numeral of a number.
* `CanonicalDecimal.unique`: two canonical decimals with the same value are the same text.
* `Reel.tidied_fixed`: zeros at the end and a sign before zero are left out.
* `Reel.canonical_printed`: what is printed of an integer over a power of ten is canonical. -/

namespace Pseudocode
set_option autoImplicit false

/-! ## Rows of digits -/

theorem IsDigit.unique {c c' : Char} {d : Nat} (h : IsDigit c d) (h' : IsDigit c' d) : c = c' :=
  Char.toNat_inj.1 (h.2.trans h'.2.symm)

theorem isDigit_digitChar {d : Nat} (h : d < 10) : IsDigit d.digitChar d := by
  unfold IsDigit
  revert d
  decide

theorem Decimal.value_append (cs ds : List Char) :
    value (cs ++ ds) = 10 ^ ds.length * value cs + value ds := by
  rw [value, Nat.ofDigitChars_append, Nat.ofDigitChars_eq_ofDigitChars_zero]
  rfl

namespace Numeral
variable {cs ds : List Char} {m n : Nat}

theorem append_numeral (hcs : Numeral cs m) (hds : Numeral ds n) :
    Numeral (cs ++ ds) (10 ^ ds.length * m + n) := by
  obtain ⟨hne, hcsdigits⟩ := hcs.digits
  have hdigits : ∀ c ∈ cs ++ ds, c.isDigit = true := by
    intro c hc
    exact (List.mem_append.1 hc).elim (hcsdigits c) (hds.digits.2 c)
  rw [← hcs.value, ← hds.value, ← Decimal.value_append]
  exact numeral_value (by simp [hne]) hdigits

theorem lt_pow (h : Numeral cs n) : n < 10 ^ cs.length := by
  induction h with
  | digit hc => exact hc.1
  | append _ hc ih =>
    have hd := hc.1
    rw [List.length_append, List.length_singleton, Nat.pow_succ]
    omega

/-- Without a superfluous zero in front there is one numeral of a number. -/
theorem eq_toDigits (h : Numeral cs n) (hzero : cs.head? = some '0' → cs = ['0']) :
    cs = Nat.toDigits 10 n := by
  induction h with
  | digit hc =>
    rw [Nat.toDigits_of_lt_base hc.1, hc.unique (isDigit_digitChar hc.1)]
  | @append cs c n d hcs hc ih =>
    obtain ⟨hne, -⟩ := hcs.digits
    rw [List.head?_append_of_ne_nil _ hne] at hzero
    -- a zero in front of the last digit is superfluous
    have hhead : cs.head? ≠ some '0' := by
      intro hhead
      have hlength := congrArg List.length (hzero hhead)
      rw [List.length_append, List.length_singleton, List.length_singleton] at hlength
      exact hne (List.length_eq_zero_iff.1 (by omega))
    have hcs := ih fun h => absurd h hhead
    have hpos : 0 < n := by
      refine Nat.pos_of_ne_zero ?_
      rintro rfl
      exact hhead (by rw [hcs]; rfl)
    have hlast : c = d.digitChar := hc.unique (isDigit_digitChar hc.1)
    rw [← Nat.toDigits_append_toDigits (by decide) hpos hc.1, ← hcs,
      Nat.toDigits_of_lt_base hc.1, hlast]

/-- There is one numeral of a number with a given count of digits. -/
theorem eq_of_length (hcs : Numeral cs n) (hds : Numeral ds n) (h : cs.length = ds.length) :
    cs = ds := by
  induction hcs generalizing ds with
  | @digit c d hc =>
    cases hds with
    | digit hc' => rw [hc.unique hc']
    | append hds =>
      obtain ⟨hne, -⟩ := hds.digits
      simp [hne] at h
  | @append cs c n d hcs hc ih =>
    obtain ⟨hne, -⟩ := hcs.digits
    generalize hvalue : 10 * n + d = k at hds
    cases hds with
    | digit hc' => simp [hne] at h
    | @append ds c' n' d' hds hc' =>
      have hd := hc.1
      have hd' := hc'.1
      obtain rfl : n = n' := by omega
      obtain rfl : d = d' := by omega
      rw [ih hds (by simpa using h), hc.unique hc']

/-- The last digit of a numeral is what is left of a division by ten. -/
theorem last_digit (h : Numeral cs n) : ∃ c, cs.getLast? = some c ∧ IsDigit c (n % 10) := by
  cases h with
  | digit hc =>
    rw [Nat.mod_eq_of_lt hc.1]
    exact ⟨_, rfl, hc⟩
  | @append cs c n d _ hc =>
    rw [Nat.mul_add_mod, Nat.mod_eq_of_lt hc.1]
    exact ⟨c, List.getLast?_concat .., hc⟩

/-- A numeral cut into two. -/
theorem split (h : Numeral (cs ++ ds) n) (hcs : cs ≠ []) (hds : ds ≠ []) :
    Numeral cs (n / 10 ^ ds.length) ∧ Numeral ds (n % 10 ^ ds.length) := by
  obtain ⟨-, hdigits⟩ := h.digits
  have hfront := numeral_value hcs fun c hc => hdigits c (List.mem_append_left _ hc)
  have hback := numeral_value hds fun c hc => hdigits c (List.mem_append_right _ hc)
  have hlt := hback.lt_pow
  have hn : n = 10 ^ ds.length * Decimal.value cs + Decimal.value ds := by
    rw [← h.value, Decimal.value_append]
  rw [hn, Nat.mul_add_div (by omega), Nat.div_eq_of_lt hlt, Nat.add_zero, Nat.mul_add_mod,
    Nat.mod_eq_of_lt hlt]
  exact ⟨hfront, hback⟩

end Numeral

/-! ## Canonical decimals -/

/-- Digits before and after a point, behind a minus sign if there is one. -/
def Decimal.written (negative : Bool) (whole fraction : List Char) : List Char :=
  (if negative then ['-'] else []) ++ whole ++ '.' :: fraction

/-- The number that a decimal denotes: `± n / 10 ^ places`. -/
def Decimal.denoted (negative : Bool) (n places : Nat) : ℚ :=
  (if negative then -n else n : ℤ) / 10 ^ places

theorem Decimal.denoted_scale (negative : Bool) (n places k : Nat) :
    denoted negative (10 ^ k * n) (places + k) = denoted negative n places := by
  have hpow : (10 : ℚ) ^ k ≠ 0 := by positivity
  have hscaled : (if negative then -(10 ^ k * n : ℕ) else (10 ^ k * n : ℕ) : ℤ)
      = 10 ^ k * (if negative then -n else n : ℤ) := by
    cases negative <;> push_cast <;> simp
  rw [denoted, denoted, hscaled, pow_add, Int.cast_mul, Int.cast_pow, Int.cast_ofNat,
    mul_comm ((10 : ℚ) ^ places), mul_div_mul_left _ _ hpow]

/-- The digits of a decimal in its canonical form, and the number that all of them denote. -/
structure CanonicalDecimal (negative : Bool) (whole fraction : List Char) (n : Nat) : Prop where
  numeral : Numeral (whole ++ fraction) n
  whole_ne : whole ≠ []
  fraction_ne : fraction ≠ []
  /-- A zero before the other digits is superfluous. -/
  leading : whole.head? = some '0' → whole = ['0']
  /-- So is a zero after the other decimals. -/
  trailing : fraction.getLast? = some '0' → fraction = ['0']
  /-- Zero has no sign. -/
  minus : negative = true → n ≠ 0

namespace CanonicalDecimal
variable {negative negative' : Bool} {whole whole' fraction fraction' : List Char} {n n' : Nat}

theorem denoted_neg_iff (h : CanonicalDecimal negative whole fraction n) (places : Nat) :
    Decimal.denoted negative n places < 0 ↔ negative = true := by
  have hpow : (0 : ℚ) < 10 ^ places := by positivity
  rw [Decimal.denoted, div_lt_iff₀ hpow, zero_mul, Int.cast_lt_zero]
  cases negative with
  | false => simp
  | true =>
    have hn := h.minus rfl
    simp only [if_true, iff_true]
    omega

/-- Only a single decimal can be a zero at the end. -/
theorem length_of_mod (h : CanonicalDecimal negative whole fraction n) (hn : n % 10 = 0) :
    fraction.length = 1 := by
  obtain ⟨c, hlast, hc⟩ := h.numeral.last_digit
  rw [hn] at hc
  obtain rfl : c = '0' := hc.unique ⟨by decide, rfl⟩
  rw [List.getLast?_append_of_ne_nil _ h.fraction_ne] at hlast
  rw [h.trailing hlast, List.length_singleton]

theorem length_le (h : CanonicalDecimal negative whole fraction n)
    (h' : CanonicalDecimal negative' whole' fraction' n')
    (hvalue : n * 10 ^ fraction'.length = n' * 10 ^ fraction.length) :
    fraction'.length ≤ fraction.length := by
  by_contra hlt
  obtain ⟨k, hk⟩ := Nat.exists_eq_add_of_lt (Nat.lt_of_not_le hlt)
  have hpow : 0 < 10 ^ fraction.length := Nat.pow_pos (by decide)
  have hn' : n' = n * 10 ^ k * 10 := by
    refine Nat.eq_of_mul_eq_mul_right hpow ?_
    rw [← hvalue, hk, Nat.pow_succ, Nat.pow_add]
    ring
  have hone := h'.length_of_mod (by omega)
  have hpos := List.length_pos_of_ne_nil h.fraction_ne
  omega

/-- A number has at most one canonical decimal. -/
theorem unique (h : CanonicalDecimal negative whole fraction n)
    (h' : CanonicalDecimal negative' whole' fraction' n')
    (hvalue : Decimal.denoted negative n fraction.length
      = Decimal.denoted negative' n' fraction'.length) :
    negative = negative' ∧ whole = whole' ∧ fraction = fraction' := by
  have hsign : negative = negative' := by
    rw [Bool.eq_iff_iff, ← h.denoted_neg_iff fraction.length, hvalue, h'.denoted_neg_iff]
  subst hsign
  have hpow : (10 : ℚ) ^ fraction.length ≠ 0 := by positivity
  have hpow' : (10 : ℚ) ^ fraction'.length ≠ 0 := by positivity
  have hscaled : n * 10 ^ fraction'.length = n' * 10 ^ fraction.length := by
    rw [Decimal.denoted, Decimal.denoted, div_eq_div_iff hpow hpow'] at hvalue
    cases negative
    · simp only [Bool.false_eq_true, if_false] at hvalue
      exact_mod_cast hvalue
    · simp only [if_true, Int.cast_neg, neg_mul, neg_inj] at hvalue
      exact_mod_cast hvalue
  have hlength := Nat.le_antisymm (h'.length_le h hscaled.symm) (h.length_le h' hscaled)
  rw [hlength] at hscaled
  obtain rfl := Nat.eq_of_mul_eq_mul_right (Nat.pow_pos (by decide)) hscaled
  obtain ⟨hfront, hback⟩ := h.numeral.split h.whole_ne h.fraction_ne
  obtain ⟨hfront', hback'⟩ := h'.numeral.split h'.whole_ne h'.fraction_ne
  rw [hlength] at hfront hback
  refine ⟨rfl, ?_, hback.eq_of_length hback' hlength⟩
  rw [hfront.eq_toDigits h.leading, hfront'.eq_toDigits h'.leading]

end CanonicalDecimal

/-! ## Printed digits -/

namespace Decimal

theorem length_padded {width n : Nat} (hwidth : 0 < width) (hn : n < 10 ^ width) :
    (padded width n).length = width := by
  have hlength := (Nat.length_toDigits_le_iff (by decide) hwidth).2 hn
  rw [padded, digits, List.length_append, List.length_replicate]
  omega

theorem value_replicate_zero (k : Nat) : value (List.replicate k '0') = 0 := by
  rw [value, Nat.ofDigitChars_replicate_zero, Nat.mul_zero]

theorem numeral_padded (width n : Nat) : Numeral (padded width n) n := by
  have hdigits := (numeral_toDigits n).digits
  have hvalue : value (padded width n) = n := by
    rw [padded, value_append, value_replicate_zero, Nat.mul_zero, Nat.zero_add]
    exact (numeral_toDigits n).value
  refine numeral_iff.2 ⟨isNumeral_iff.2 ⟨?_, fun c hc => ?_⟩, hvalue⟩
  · exact List.append_ne_nil_of_right_ne_nil _ hdigits.1
  · rcases List.mem_append.1 hc with hc | hc
    · rw [List.eq_of_mem_replicate hc]
      rfl
    · exact hdigits.2 c hc

/-- A row of digits is what is left of it without the zeros at its end, and these zeros. -/
theorem exists_trimZeros_append (cs : List Char) :
    ∃ k, cs = trimZeros cs ++ List.replicate k '0' := by
  have hzeros : ∀ c ∈ cs.reverse.takeWhile (· == '0'), c = '0' :=
    fun c hc => beq_iff_eq.1 (@List.mem_takeWhile_imp _ (· == '0') _ _ hc)
  refine ⟨(cs.reverse.takeWhile (· == '0')).length, ?_⟩
  calc
    cs = (cs.reverse.takeWhile (· == '0') ++ cs.reverse.dropWhile (· == '0')).reverse := by
      rw [List.takeWhile_append_dropWhile, List.reverse_reverse]
    _ = trimZeros cs ++ (cs.reverse.takeWhile (· == '0')).reverse := List.reverse_append
    _ = trimZeros cs ++ List.replicate (cs.reverse.takeWhile (· == '0')).length '0' := by
      rw [List.eq_replicate_of_mem hzeros, List.reverse_replicate, List.length_replicate]

theorem getLast?_trimZeros (cs : List Char) : (trimZeros cs).getLast? ≠ some '0' := by
  intro hlast
  have hhead := List.head?_dropWhile_not (· == '0') cs.reverse
  rw [trimZeros, List.getLast?_reverse] at hlast
  rw [hlast] at hhead
  exact absurd hhead (by decide)

end Decimal

namespace Reel

/-- The decimals that are printed of `n / 10 ^ printedPlaces`. -/
def printedFraction (n : Nat) : List Char :=
  shortened (Decimal.padded printedPlaces (n % 10 ^ printedPlaces))

theorem length_padded_printed (n : Nat) :
    (Decimal.padded printedPlaces (n % 10 ^ printedPlaces)).length = printedPlaces :=
  Decimal.length_padded (by decide) (Nat.mod_lt n (by decide))

/-- The printed decimals are all of them without the zeros at the end, of which one stays where
there is nothing else. -/
theorem exists_printedFraction_append (n : Nat) :
    ∃ k, Decimal.padded printedPlaces (n % 10 ^ printedPlaces)
      = printedFraction n ++ List.replicate k '0' := by
  have hlength := length_padded_printed n
  unfold printedFraction shortened
  generalize Decimal.padded printedPlaces (n % 10 ^ printedPlaces) = cs at hlength ⊢
  obtain ⟨k, hk⟩ := Decimal.exists_trimZeros_append cs
  split
  · rename_i htrim
    rw [htrim, List.nil_append] at hk
    rw [hk, List.length_replicate] at hlength
    rw [hk, hlength]
    exact ⟨printedPlaces - 1, rfl⟩
  · exact ⟨k, hk⟩

theorem printedFraction_ne (n : Nat) : printedFraction n ≠ [] := by
  unfold printedFraction shortened
  split
  · exact List.cons_ne_nil _ _
  · assumption

theorem printedFraction_trailing (n : Nat) :
    (printedFraction n).getLast? = some '0' → printedFraction n = ['0'] := by
  unfold printedFraction shortened
  split
  · exact fun _ => rfl
  · exact fun hlast => absurd hlast (Decimal.getLast?_trimZeros _)

/-- A single zero is printed only where all decimals are zero. -/
theorem printedFraction_eq_zero_iff (n : Nat) :
    printedFraction n = ['0'] ↔ n % 10 ^ printedPlaces = 0 := by
  constructor
  · intro hzero
    obtain ⟨k, hk⟩ := exists_printedFraction_append n
    have hvalue := (Decimal.numeral_padded printedPlaces (n % 10 ^ printedPlaces)).value
    rw [hk, hzero, Decimal.value_append, Decimal.value_replicate_zero] at hvalue
    exact hvalue.symm
  · intro hzero
    rw [printedFraction, hzero]
    rfl

theorem digits_eq_zero_iff (n : Nat) : Decimal.digits n = ['0'] ↔ n = 0 := by
  constructor
  · intro hzero
    have hvalue := (numeral_toDigits n).value
    rw [Decimal.digits] at hzero
    rw [hzero] at hvalue
    exact hvalue.symm
  · rintro rfl
    rfl

theorem digits_leading (n : Nat) :
    (Decimal.digits n).head? = some '0' → Decimal.digits n = ['0'] := by
  induction n using Nat.strongRecOn with
  | ind n ih =>
    unfold Decimal.digits at ih ⊢
    rw [Nat.toDigits_eq_if (by decide)]
    split
    · intro hhead
      rw [Option.some_inj.1 hhead]
    · -- a zero in front of two digits or more is in front of all but the last
      rename_i hten
      intro hhead
      rw [List.head?_append_of_ne_nil _ Nat.toDigits_ne_nil] at hhead
      have hquotient := (numeral_toDigits (n / 10)).value
      rw [ih (n / 10) (by omega) hhead] at hquotient
      have hzero : Decimal.value ['0'] = 0 := rfl
      omega

theorem span_written {cs : List Char} (hcs : ∀ c ∈ cs, c ≠ '.') (fraction : List Char) :
    (cs ++ '.' :: fraction).span (· != '.') = (cs, '.' :: fraction) := by
  have hmarked : ∀ c ∈ cs, (c != '.') = true := fun c hc => bne_iff_ne.2 (hcs c hc)
  rw [List.span_eq_takeWhile_dropWhile, List.takeWhile_append_of_pos hmarked,
    List.dropWhile_append_of_pos hmarked, List.takeWhile_cons_of_neg (by decide),
    List.dropWhile_cons_of_neg (by decide), List.append_nil]

/-- A number with all its places loses the zeros at its end, and zero loses its sign. -/
theorem tidied_fixed (negative : Bool) (n : Nat) :
    tidied (Decimal.written negative (Decimal.digits (n / 10 ^ printedPlaces))
        (Decimal.padded printedPlaces (n % 10 ^ printedPlaces)))
      = Decimal.written (negative && n != 0) (Decimal.digits (n / 10 ^ printedPlaces))
        (printedFraction n) := by
  obtain ⟨-, hdigits⟩ := (numeral_toDigits (n / 10 ^ printedPlaces)).digits
  have hpoint : ∀ c ∈ (if negative then ['-'] else []) ++ Decimal.digits (n / 10 ^ printedPlaces),
      c ≠ '.' := by
    rintro c hc rfl
    rcases List.mem_append.1 hc with hc | hc
    · cases negative <;> simp at hc
    · exact absurd (hdigits _ hc) (by decide)
  rw [tidied, Decimal.written, span_written hpoint]
  simp only
  rw [← printedFraction]
  cases negative with
  | false =>
    have hwhole : Decimal.digits (n / 10 ^ printedPlaces) ≠ ['-', '0'] := by
      intro h
      rw [Decimal.digits] at h
      rw [h] at hdigits
      exact absurd (hdigits '-' (.head _)) (by decide)
    exact if_neg fun h => hwhole h.2
  | true =>
    -- the sign goes where the digits on both sides of the point are zero
    have hzero : printedFraction n = ['0'] ∧
        ['-'] ++ Decimal.digits (n / 10 ^ printedPlaces) = ['-', '0'] ↔ n = 0 := by
      have hparts := Nat.div_add_mod n (10 ^ printedPlaces)
      rw [printedFraction_eq_zero_iff, List.singleton_append, List.cons_inj_right,
        digits_eq_zero_iff]
      constructor
      · rintro ⟨hfraction, hwhole⟩
        rwa [hfraction, hwhole, Nat.mul_zero, Nat.zero_add, eq_comm] at hparts
      · rintro rfl
        exact ⟨rfl, rfl⟩
    by_cases hn : n = 0
    · subst hn
      exact if_pos (hzero.2 rfl)
    · rw [bne_iff_ne.2 hn]
      exact if_neg fun h => hn (hzero.1 h)

/-- What is printed of `n / 10 ^ printedPlaces` is a canonical decimal of at most so many places. -/
theorem canonical_printed {negative : Bool} {n : Nat} (hminus : negative = true → n ≠ 0) :
    ∃ k m, n = 10 ^ k * m ∧ (printedFraction n).length + k = printedPlaces ∧
      CanonicalDecimal negative (Decimal.digits (n / 10 ^ printedPlaces)) (printedFraction n)
        m := by
  have hwhole := numeral_toDigits (n / 10 ^ printedPlaces)
  have hpadded := Decimal.numeral_padded printedPlaces (n % 10 ^ printedPlaces)
  have hlength := length_padded_printed n
  have hall := hwhole.append_numeral hpadded
  obtain ⟨k, hk⟩ := exists_printedFraction_append n
  rw [hlength, Nat.div_add_mod, hk, ← List.append_assoc] at hall
  rw [hk, List.length_append, List.length_replicate] at hlength
  -- without the zeros at the end the same digits denote a smaller number
  have hnumeral : Numeral (Decimal.digits (n / 10 ^ printedPlaces) ++ printedFraction n)
      (Decimal.value (Decimal.digits (n / 10 ^ printedPlaces) ++ printedFraction n)) :=
    numeral_value (List.append_ne_nil_of_right_ne_nil _ (printedFraction_ne n)) fun c hc =>
      hall.digits.2 c (List.mem_append_left _ hc)
  have hn := hall.value
  rw [Decimal.value_append, Decimal.value_replicate_zero, List.length_replicate] at hn
  refine ⟨k, _, hn.symm, hlength, hnumeral, Nat.toDigits_ne_nil, printedFraction_ne n,
    digits_leading _, printedFraction_trailing n, fun hnegative hzero => ?_⟩
  refine hminus hnegative ?_
  rw [← hn, Nat.add_zero]
  exact Nat.mul_eq_zero.2 (.inr hzero)

end Reel
end Pseudocode
