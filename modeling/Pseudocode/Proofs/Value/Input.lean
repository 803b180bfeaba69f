import Pseudocode.Proofs.Number.DecimalNumeral
import Pseudocode.Proofs.Text.Trim

/-! # Input texts and values

Which input texts become numbers, and which values they become; and that the printed form of a value
is read back as it.

* `readsNumbers`: the input texts that are numbers of either type.
* `ofInput_text`: what is printed for a value that is not a `REEL` is read as that value. -/

namespace Pseudocode
set_option autoImplicit false

/-! ## White space -/

theorem isBlank_of_isDigit {c : Char} (h : c.isDigit = true) : Text.isBlank c = false := by
  obtain ⟨d, hd, hc⟩ := isDigit_iff.1 h
  have hzero : '0'.toNat = 48 := rfl
  have hvalue : c.toNat = 48 + d := by omega
  simp [Text.isBlank, hvalue]
  omega

theorem Sign.no_blank {sign : List Char} {negative : Bool} (h : Sign sign negative) :
    ∀ c ∈ sign, Text.isBlank c = false := by
  intro c hc
  cases h with
  | none => cases hc
  | plus | minus =>
    rw [List.mem_singleton.1 hc]
    rfl

theorem SignedNumeral.no_blank {cs : List Char} {n : Int} (h : SignedNumeral cs n) :
    ∀ c ∈ cs, Text.isBlank c = false := by
  cases h with
  | mk hsign hdigits =>
    intro c hc
    rcases List.mem_append.1 hc with hc | hc
    · exact hsign.no_blank c hc
    · exact isBlank_of_isDigit (hdigits.digits.2 c hc)

namespace Value

/-! ## Numbers -/

theorem ofInput_eq_ok_iff {raw name : String} {ty : Ty} {line : Nat} {v : Value} :
    ofInput raw ty name line = .ok v ↔ read? ty raw = some v := by
  unfold ofInput
  split <;> simp_all

theorem ofInput_eq_error {raw name : String} {ty : Ty} {line : Nat} {error : RuntimeError}
    (h : ofInput raw ty name line = .error error) :
    error = ⟨.typeMismatch (.badInput raw ty name), line⟩ := by
  unfold ofInput at h
  split at h
  · cases h
  · exact (Except.error.inj h).symm

/-- The numbers that an input stands for, told by what is left of it without the white space at its
two ends. -/
structure ReadsNumbers (raw name : String) (line : Nat) (inner : List Char) : Prop where
  trimmed : Text.Trimmed raw.toList inner
  /-- A signed row of digits is read as the `ENTIER` it denotes. -/
  entier : ∀ v, ofInput raw .entier name line = .ok v ↔
    ∃ n : Entier, SignedNumeral inner n.toInt ∧ v = .integer n
  /-- It is read if the number is in range. -/
  entier_accepts : (∃ v, ofInput raw .entier name line = .ok v) ↔
    ∃ n : Int, SignedNumeral inner n ∧ -2 ^ 63 ≤ n ∧ n < 2 ^ 63
  /-- A signed decimal numeral is read as the `REEL` nearest to what it denotes. -/
  reel : ∀ v, ofInput raw .reel name line = .ok v ↔ ∃ negative n places,
    SignedScaled inner negative n places ∧ v = .real (Reel.ofDecimal negative n places)
  /-- All of them are read: there is nothing that passes the check and is not converted. -/
  reel_accepts : (∃ v, ofInput raw .reel name line = .ok v) ↔ DecimalNumeral inner
  converts : isDecimal inner = true → ∃ x, Reel.parse? (inner.map commaToPoint) = some x
  /-- What is not read is a mismatch that shows the input as it stood. -/
  refused : ∀ ty error, ofInput raw ty name line = .error error →
    error = ⟨.typeMismatch (.badInput raw ty name), line⟩

theorem ofInput_entier_iff {raw name : String} {line : Nat} {v : Value} :
    ofInput raw .entier name line = .ok v ↔
      ∃ n : Entier, SignedNumeral (Text.trim raw.toList) n.toInt ∧ v = .integer n := by
  rw [ofInput_eq_ok_iff, read?, Option.map_eq_some_iff]
  constructor
  · rintro ⟨n, hn, rfl⟩
    exact ⟨n, Entier.read?_eq_some_iff.1 hn, rfl⟩
  · rintro ⟨n, hn, rfl⟩
    exact ⟨n, Entier.read?_eq_some_iff.2 hn, rfl⟩

theorem ofInput_reel_iff {raw name : String} {line : Nat} {v : Value} :
    ofInput raw .reel name line = .ok v ↔ ∃ negative n places,
      SignedScaled (Text.trim raw.toList) negative n places ∧
        v = .real (Reel.ofDecimal negative n places) := by
  rw [ofInput_eq_ok_iff, read?, Option.map_eq_some_iff]
  constructor
  · rintro ⟨x, hx, rfl⟩
    obtain ⟨negative, n, places, hscaled, rfl⟩ := Reel.read?_eq_some_iff.1 hx
    exact ⟨negative, n, places, hscaled, rfl⟩
  · rintro ⟨negative, n, places, hscaled, rfl⟩
    exact ⟨_, Reel.read?_eq_some_iff.2 ⟨negative, n, places, hscaled, rfl⟩, rfl⟩

/-- An input is read as a number exactly if what it is without the white space around it is a
numeral of the type. -/
theorem readsNumbers (raw name : String) (line : Nat) :
    ReadsNumbers raw name line (Text.trim raw.toList) where
  trimmed := Text.trimmed_trim _
  entier _ := ofInput_entier_iff
  entier_accepts := by
    constructor
    · rintro ⟨v, hv⟩
      obtain ⟨n, hn, -⟩ := ofInput_entier_iff.1 hv
      exact ⟨n.toInt, hn, Entier.fits_toInt n⟩
    · rintro ⟨n, hn, hfits⟩
      rw [← Entier.toInt_ofInt hfits] at hn
      exact ⟨_, ofInput_entier_iff.2 ⟨_, hn, rfl⟩⟩
  reel _ := ofInput_reel_iff
  reel_accepts := by
    rw [decimalNumeral_iff]
    constructor
    · rintro ⟨v, hv⟩
      obtain ⟨negative, n, places, hscaled, -⟩ := ofInput_reel_iff.1 hv
      exact ⟨negative, n, places, hscaled⟩
    · rintro ⟨negative, n, places, hscaled⟩
      exact ⟨_, ofInput_reel_iff.2 ⟨negative, n, places, hscaled, rfl⟩⟩
  converts h := by
    obtain ⟨negative, n, places, -, hparse⟩ := Reel.parse?_of_isDecimal h
    exact ⟨_, hparse⟩
  refused _ _ := ofInput_eq_error

/-! ## Printed values -/

theorem onlyChar?_singleton (c : Char) : onlyChar? (String.singleton c) = some c := by
  rw [onlyChar?, String.toList_singleton]

theorem read?_truthText (b : Bool) : read? .booleen (truthText b) = some (.boolean b) := by
  cases b <;> decide +kernel

/-- What is printed for a value, a `REEL` apart, is read back as the value. -/
theorem ofInput_text {value : Value} {ty : Ty} (htype : value.ty? = some ty) (hreel : ty ≠ .reel)
    (name : String) (line : Nat) : ofInput value.text ty name line = .ok value := by
  rw [ofInput_eq_ok_iff]
  cases value with
  | integer n =>
    obtain rfl : Ty.entier = ty := Option.some_inj.1 htype
    have htext := Entier.text_numeral n
    rw [read?, text, Text.trim_of_no_blank htext.no_blank, Entier.read?_eq_some_iff.2 htext]
    rfl
  | real x => exact absurd (Option.some_inj.1 htype).symm hreel
  | string s =>
    obtain rfl : Ty.chaine = ty := Option.some_inj.1 htype
    rfl
  | boolean b =>
    obtain rfl : Ty.booleen = ty := Option.some_inj.1 htype
    exact read?_truthText b
  | character c =>
    obtain rfl : Ty.caractere = ty := Option.some_inj.1 htype
    rw [read?, text, onlyChar?_singleton]
    rfl
  | uninitialized => cases htype

theorem ofInput_text_minValue :
    ofInput (integer Int64.minValue).text .entier "n" 1 = .ok (.integer Int64.minValue) :=
  ofInput_text rfl (by decide) "n" 1

end Value
end Pseudocode
