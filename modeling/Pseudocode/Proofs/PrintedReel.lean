import Pseudocode.Proofs.Number.ExactReel
import Pseudocode.Proofs.Number.FixedPoint
import Pseudocode.Proofs.Number.Rounding
import Pseudocode.Proofs.Value.Input

/-! # Printed real numbers

A finite `REEL` is printed as the canonical decimal nearest to its exact value among those of at
most ten places. There is one such decimal, and it can be read from an input.

* `Reel.text_printedForm`: what is printed of a finite `REEL`.
* `Reel.PrintedForm.text_eq`: nothing else satisfies the same. -/

namespace Pseudocode
set_option autoImplicit false

/-! ## Canonical decimals as inputs -/

namespace CanonicalDecimal
variable {negative : Bool} {whole fraction : List Char} {n : Nat}

theorem signedScaled (h : CanonicalDecimal negative whole fraction n) :
    SignedScaled (Decimal.written negative whole fraction) negative n fraction.length := by
  have hscaled := Scaled.marked (.inl rfl : IsMark '.') h.numeral
  have hsign : Sign (if negative then ['-'] else []) negative := by
    cases negative
    · exact .none
    · exact .minus
  rw [Decimal.written, List.append_assoc]
  exact .mk hsign hscaled

theorem no_blank (h : CanonicalDecimal negative whole fraction n) :
    ∀ c ∈ Decimal.written negative whole fraction, Text.isBlank c = false := by
  obtain ⟨-, hdigits⟩ := h.numeral.digits
  have hminus : Text.isBlank '-' = false := by decide
  have hpoint : Text.isBlank '.' = false := by decide
  intro c hc
  rcases List.mem_append.1 hc with hc | hc
  · rcases List.mem_append.1 hc with hc | hc
    · cases negative
      · cases hc
      · rwa [List.mem_singleton.1 hc]
    · exact isBlank_of_isDigit (hdigits c (List.mem_append_left _ hc))
  · rcases List.mem_cons.1 hc with rfl | hc
    · exact hpoint
    · exact isBlank_of_isDigit (hdigits c (List.mem_append_right _ hc))

theorem ofInput (h : CanonicalDecimal negative whole fraction n) {raw : String}
    (hraw : raw.toList = Decimal.written negative whole fraction) (name : String) (line : Nat) :
    Value.ofInput raw .reel name line
      = .ok (.real (Reel.ofDecimal negative n fraction.length)) := by
  rw [Value.ofInput_reel_iff, hraw, Text.trim_of_no_blank h.no_blank]
  exact ⟨_, _, _, h.signedScaled, rfl⟩

end CanonicalDecimal

/-! ## The printed decimal -/

namespace Parts

theorem nearestInt_signed (p : Parts) (places : Nat) :
    NearestInt (p.exact * 10 ^ places) (p.signed (roundToEven (p.num * 10 ^ places) p.den)) := by
  have hnearest := nearestInt_roundToEven (p.num * 10 ^ places) p.den_pos
  have hscaled : ((p.num * 10 ^ places : ℕ) : ℚ) = p.num * 10 ^ places := by push_cast; rfl
  rw [p.exact_eq]
  unfold signed
  split
  · have hneg := hnearest.neg
    rw [hscaled, mul_div_right_comm, ← neg_mul, ← neg_div] at hneg
    rwa [Int.cast_neg, Int.cast_natCast]
  · rwa [hscaled, mul_div_right_comm] at hnearest

/-- A sign before zero changes nothing. -/
theorem signed_eq_ite (p : Parts) (n : Nat) :
    (if p.negative && n != 0 then -n else n : ℤ) = p.signed n := by
  unfold signed
  cases p.negative <;> by_cases hn : n = 0 <;> simp [hn]

end Parts

namespace Reel

/-- The canonical decimal that is printed of a `REEL`: it has at most ten places, and of all such
decimals it is the one nearest to the exact value. -/
structure PrintedForm (x : Reel) (negative : Bool) (whole fraction : List Char) (n : Nat) :
    Prop where
  canonical : CanonicalDecimal negative whole fraction n
  places : fraction.length ≤ 10
  rounded : ∃ exact, x.exactValue? = some exact ∧
    NearestDecimal 10 exact (Decimal.denoted negative n fraction.length)

theorem printedForm_of_parts {x : Reel} {p : Parts} (hparts : x.parts? = some p)
    (hexact : x.exactValue? = some p.exact) :
    let n := roundToEven (p.num * 10 ^ printedPlaces) p.den
    ∃ m, x.text.toList = Decimal.written (p.negative && n != 0)
        (Decimal.digits (n / 10 ^ printedPlaces)) (printedFraction n) ∧
      PrintedForm x (p.negative && n != 0) (Decimal.digits (n / 10 ^ printedPlaces))
        (printedFraction n) m := by
  intro n
  have htext : x.text.toList = Decimal.written (p.negative && n != 0)
      (Decimal.digits (n / 10 ^ printedPlaces)) (printedFraction n) := by
    have hfixed : fixed printedPlaces x = Decimal.written p.negative
        (Decimal.digits (n / 10 ^ printedPlaces))
        (Decimal.padded printedPlaces (n % 10 ^ printedPlaces)) := by
      rw [fixed, hparts]
      rfl
    rw [text, hfixed, tidied_fixed, String.toList_ofList]
  have hminus : (p.negative && n != 0) = true → n ≠ 0 := by simp
  obtain ⟨k, m, hn, hlength, hcanonical⟩ := canonical_printed hminus
  have hdenoted : Decimal.denoted (p.negative && n != 0) m (printedFraction n).length
      = (p.signed n : ℤ) / 10 ^ printedPlaces := by
    rw [← Decimal.denoted_scale _ _ _ k, ← hn, hlength, Decimal.denoted, Parts.signed_eq_ite]
  refine ⟨m, htext, hcanonical, Nat.le.intro hlength, p.exact, hexact, ?_⟩
  rw [hdenoted]
  exact (p.nearestInt_signed printedPlaces).decimal

/-! ## Uniqueness -/

variable {x : Reel} {negative negative' : Bool} {whole whole' fraction fraction' : List Char}
  {n n' : Nat}

theorem PrintedForm.unique (h : PrintedForm x negative whole fraction n)
    (h' : PrintedForm x negative' whole' fraction' n') :
    negative = negative' ∧ whole = whole' ∧ fraction = fraction' := by
  obtain ⟨r, hr, -, k, hk, hnearest⟩ := h.rounded
  obtain ⟨r', hr', -, k', hk', hnearest'⟩ := h'.rounded
  obtain rfl : r = r' := Option.some_inj.1 (hr.symm.trans hr')
  rw [← hnearest.unique hnearest', ← hk] at hk'
  exact h.canonical.unique h'.canonical hk'.symm

/-- Only the printed text is a canonical decimal nearest to the exact value. -/
theorem PrintedForm.text_eq (h : PrintedForm x negative whole fraction n) :
    x.text = String.ofList (Decimal.written negative whole fraction) := by
  obtain ⟨r, hr, -⟩ := h.rounded
  obtain ⟨p, hparts, hexact⟩ := exists_parts (exists_exact_iff.1 ⟨r, hr⟩)
  obtain ⟨m, htext, hprinted⟩ := printedForm_of_parts hparts hexact
  obtain ⟨hsign, hwhole, hfraction⟩ := hprinted.unique h
  rw [hsign, hwhole, hfraction] at htext
  rw [← htext, String.ofList_toList]

/-- A finite `REEL` is printed as a canonical decimal of at most ten places that is nearest to its
exact value, and an input with that text is read as a `REEL`. -/
theorem text_printedForm (x : Reel) (h : x.isFinite = true) : ∃ negative whole fraction n,
    x.text.toList = Decimal.written negative whole fraction ∧
    PrintedForm x negative whole fraction n ∧
    ∀ name line, Value.ofInput x.text .reel name line
      = .ok (.real (ofDecimal negative n fraction.length)) := by
  obtain ⟨p, hparts, hexact⟩ := exists_parts h
  obtain ⟨n, htext, hprinted⟩ := printedForm_of_parts hparts hexact
  exact ⟨_, _, _, n, htext, hprinted, hprinted.canonical.ofInput htext⟩

/-- The number just above `-1` is printed with a carry over the point. -/
theorem text_printedForm_carry : (Float.ofBits 0xBFEFFFFFFFFFFFFF).isFinite = true ∧
    ∃ negative whole fraction n,
      (text (Float.ofBits 0xBFEFFFFFFFFFFFFF)).toList = Decimal.written negative whole fraction ∧
      PrintedForm (Float.ofBits 0xBFEFFFFFFFFFFFFF) negative whole fraction n ∧
      ∀ name line, Value.ofInput (text (Float.ofBits 0xBFEFFFFFFFFFFFFF)) .reel name line
        = .ok (.real (ofDecimal negative n fraction.length)) := by
  have hfinite : (Float.ofBits 0xBFEFFFFFFFFFFFFF).isFinite = true := by decide +kernel
  exact ⟨hfinite, text_printedForm _ hfinite⟩

example : text (Float.ofBits 0xBFEFFFFFFFFFFFFF) = "-1.0" := by decide +kernel

end Reel
end Pseudocode
