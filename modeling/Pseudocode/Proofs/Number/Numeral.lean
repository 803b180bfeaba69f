import Mathlib.Data.List.Induction
import Pseudocode.Proofs.Number.Entier
import Pseudocode.Value.Input

/-! # Numerals of integers

A numeral is one or more digits, and the number it denotes grows by one place with each of them; a
sign may stand in front.

* `Entier.read?_eq_some_iff`: what is read as an `ENTIER` is exactly a numeral of it.
* `Entier.text_numeral`: an `ENTIER` is printed as a numeral of it. -/

namespace Pseudocode
set_option autoImplicit false

/-! ## Digits -/

/-- The character is the digit `d`, one of the ten from `0` to `9`. -/
def IsDigit (c : Char) (d : Nat) : Prop := d < 10 ∧ c.toNat = '0'.toNat + d

/-- One or more digits and the number they denote. -/
inductive Numeral : List Char → Nat → Prop where
  | digit {c : Char} {d : Nat} : IsDigit c d → Numeral [c] d
  | append {cs : List Char} {c : Char} {n d : Nat} :
      Numeral cs n → IsDigit c d → Numeral (cs ++ [c]) (10 * n + d)

theorem isDigit_iff {c : Char} : c.isDigit = true ↔ ∃ d, IsDigit c d := by
  have hrange : c.isDigit = true ↔ '0'.toNat ≤ c.toNat ∧ c.toNat ≤ '9'.toNat := by
    simp [Char.isDigit, UInt32.le_iff_toNat_le]
  have hzero : '0'.toNat = 48 := rfl
  have hnine : '9'.toNat = 57 := rfl
  rw [hrange]
  constructor
  · rintro ⟨hlow, hhigh⟩
    exact ⟨c.toNat - '0'.toNat, by omega, by omega⟩
  · rintro ⟨d, hd, hc⟩
    constructor <;> omega

namespace Decimal
variable {cs : List Char}

theorem value_nil : value [] = 0 := rfl

theorem value_concat (cs : List Char) {c : Char} {d : Nat} (h : IsDigit c d) :
    value (cs ++ [c]) = 10 * value cs + d := by
  have hd : c.toNat - '0'.toNat = d := by rw [h.2, Nat.add_sub_cancel_left]
  rw [value, Nat.ofDigitChars_append, Nat.ofDigitChars_cons, hd]
  rfl

theorem isNumeral_iff : isNumeral cs = true ↔ cs ≠ [] ∧ ∀ c ∈ cs, c.isDigit = true := by
  simp [isNumeral]

end Decimal

theorem Numeral.digits {cs : List Char} {n : Nat} (h : Numeral cs n) :
    cs ≠ [] ∧ ∀ c ∈ cs, c.isDigit = true := by
  induction h with
  | digit hc => exact ⟨by simp, by simpa using isDigit_iff.2 ⟨_, hc⟩⟩
  | append _ hc ih =>
    refine ⟨by simp, fun c hmem => ?_⟩
    rcases List.mem_append.1 hmem with hmem | hmem
    · exact ih.2 c hmem
    · rw [List.mem_singleton.1 hmem]
      exact isDigit_iff.2 ⟨_, hc⟩

theorem Numeral.value {cs : List Char} {n : Nat} (h : Numeral cs n) : Decimal.value cs = n := by
  induction h with
  | digit hc =>
    have hvalue := Decimal.value_concat [] hc
    rwa [Decimal.value_nil, Nat.mul_zero, Nat.zero_add] at hvalue
  | append _ hc ih => rw [Decimal.value_concat _ hc, ih]

theorem numeral_value {cs : List Char} (hne : cs ≠ []) (hdigits : ∀ c ∈ cs, c.isDigit = true) :
    Numeral cs (Decimal.value cs) := by
  induction cs using List.reverseRecOn with
  | nil => exact absurd rfl hne
  | append_singleton cs c ih =>
    obtain ⟨d, hc⟩ := isDigit_iff.1 (hdigits c (by simp))
    rw [Decimal.value_concat cs hc]
    by_cases hcs : cs = []
    · subst hcs
      rw [Decimal.value_nil, Nat.mul_zero, Nat.zero_add]
      exact .digit hc
    · exact .append (ih hcs fun c hmem => hdigits c (by simp [hmem])) hc

theorem numeral_iff {cs : List Char} {n : Nat} :
    Numeral cs n ↔ Decimal.isNumeral cs = true ∧ Decimal.value cs = n := by
  rw [Decimal.isNumeral_iff]
  constructor
  · exact fun h => ⟨h.digits, h.value⟩
  · rintro ⟨⟨hne, hdigits⟩, rfl⟩
    exact numeral_value hne hdigits

theorem exists_numeral_iff {cs : List Char} :
    (∃ n, Numeral cs n) ↔ cs ≠ [] ∧ ∀ c ∈ cs, c.isDigit = true :=
  ⟨fun ⟨_, h⟩ => h.digits, fun ⟨hne, hdigits⟩ => ⟨_, numeral_value hne hdigits⟩⟩

theorem numeral_toDigits (n : Nat) : Numeral (Nat.toDigits 10 n) n := by
  rw [numeral_iff, Decimal.isNumeral_iff]
  refine ⟨⟨Nat.toDigits_ne_nil, fun c hc => ?_⟩, Nat.ofDigitChars_toDigits (by omega) (by omega)⟩
  exact Nat.isDigit_of_mem_toDigits (by omega) (by omega) hc

/-! ## Signs -/

/-- A sign, which may be left out, and whether it is a minus. -/
inductive Sign : List Char → Bool → Prop where
  | none : Sign [] false
  | plus : Sign ['+'] false
  | minus : Sign ['-'] true

/-- A text does not begin with a sign. -/
def Unsigned (cs : List Char) : Prop := ∀ c ∈ cs.head?, c ≠ '+' ∧ c ≠ '-'

theorem splitSign_split (cs : List Char) :
    ∃ sign, Sign sign (splitSign cs).1 ∧ cs = sign ++ (splitSign cs).2 := by
  unfold splitSign
  split
  · exact ⟨['+'], .plus, rfl⟩
  · exact ⟨['-'], .minus, rfl⟩
  · exact ⟨[], .none, rfl⟩

theorem splitSign_append {sign body : List Char} {negative : Bool} (h : Sign sign negative)
    (hbody : Unsigned body) : splitSign (sign ++ body) = (negative, body) := by
  cases h with
  | none =>
    rw [List.nil_append]
    unfold splitSign
    split
    · exact absurd rfl (hbody '+' rfl).1
    · exact absurd rfl (hbody '-' rfl).2
    · rfl
  | plus | minus => rfl

theorem Numeral.unsigned {cs : List Char} {n : Nat} (h : Numeral cs n) : Unsigned cs := by
  intro c hc
  have hdigit := h.digits.2 c (List.mem_of_mem_head? hc)
  constructor <;> (rintro rfl; exact absurd hdigit (by decide))

/-! ## Integers -/

/-- Digits behind a sign that may be left out, and the integer they denote. -/
inductive SignedNumeral : List Char → Int → Prop where
  | mk {sign digits : List Char} {negative : Bool} {n : Nat} :
      Sign sign negative → Numeral digits n →
      SignedNumeral (sign ++ digits) (if negative then -n else n)

namespace Entier
variable {cs : List Char}

theorem read?_of_numeral {sign digits : List Char} {negative : Bool} {n : Nat}
    (hsign : Sign sign negative) (hdigits : Numeral digits n) :
    read? (sign ++ digits) = ofInt? (if negative then -n else n) := by
  obtain ⟨hnumeral, hvalue⟩ := numeral_iff.1 hdigits
  rw [read?, splitSign_append hsign hdigits.unsigned]
  simp only [hnumeral, if_true, hvalue]

theorem exists_numeral_of_read? {a : Entier} (h : read? cs = some a) :
    ∃ n, SignedNumeral cs n ∧ ofInt? n = some a := by
  obtain ⟨sign, hsign, hcs⟩ := splitSign_split cs
  unfold read? at h
  split at h
  rename_i negative digits hsplit
  rw [hsplit] at hsign hcs
  split at h
  · rename_i hdigits
    rw [hcs]
    exact ⟨_, .mk hsign (numeral_iff.2 ⟨hdigits, rfl⟩), h⟩
  · cases h

/-- The numerals of an `ENTIER` are what is read as it. -/
theorem read?_eq_some_iff {a : Entier} : read? cs = some a ↔ SignedNumeral cs a.toInt := by
  constructor
  · intro h
    obtain ⟨n, hn, ha⟩ := exists_numeral_of_read? h
    rwa [toInt_of_ofInt? ha]
  · intro h
    generalize hvalue : a.toInt = n at h
    cases h with
    | mk hsign hdigits => rw [read?_of_numeral hsign hdigits, ← hvalue, ofInt?_toInt]

theorem text_toList {a : Entier} (h : 0 ≤ a.toInt) :
    a.text.toList = Nat.toDigits 10 a.toInt.toNat := by
  obtain ⟨n, hn⟩ := Int.eq_ofNat_of_zero_le h
  rw [text, hn]
  exact Nat.toList_repr

/-- The text of an integer without a sign is a row of digits. -/
theorem text_digits {a : Entier} (h : 0 ≤ a.toInt) :
    a.text.toList ≠ [] ∧ ∀ d ∈ a.text.toList, d.isDigit = true := by
  rw [text_toList h]
  exact (numeral_toDigits _).digits

theorem text_of_neg {a : Entier} (h : a.toInt < 0) :
    a.text.toList = '-' :: Nat.toDigits 10 a.toInt.natAbs := by
  obtain ⟨n, hn⟩ := Int.eq_negSucc_of_lt_zero h
  have hrepr : (Int.negSucc n).repr = "-" ++ (n + 1).repr := rfl
  rw [text, hn, hrepr, String.toList_append, Nat.toList_repr]
  rfl

/-- An `ENTIER` is printed as a numeral of it. -/
theorem text_numeral (a : Entier) : SignedNumeral a.text.toList a.toInt := by
  rcases Int.lt_or_le a.toInt 0 with hneg | hnonneg
  · have h := SignedNumeral.mk .minus (numeral_toDigits a.toInt.natAbs)
    rwa [List.singleton_append, ← text_of_neg hneg, if_pos rfl,
      Int.ofNat_natAbs_of_nonpos (Int.le_of_lt hneg), Int.neg_neg] at h
  · have h := SignedNumeral.mk .none (numeral_toDigits a.toInt.toNat)
    rwa [List.nil_append, ← text_toList hnonneg, if_neg Bool.false_ne_true,
      Int.toNat_of_nonneg hnonneg] at h

end Entier
end Pseudocode
