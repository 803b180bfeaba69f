import Mathlib.Data.List.TakeWhile
import Pseudocode.Proofs.Number.Numeral

/-! # Numerals of real numbers

A decimal numeral is digits with at most one decimal mark among or around them, behind a sign that
may be left out. The check counts the marks; what converts a checked text looks for a point between
two rows of digits.

* `isDecimal_iff`: the check accepts exactly the decimal numerals.
* `Reel.parse?_of_isDecimal`: the conversion succeeds on whatever passes the check.
* `Reel.read?_eq_some_iff`: what is read as a `REEL` is exactly a decimal numeral. -/

namespace Pseudocode
set_option autoImplicit false

/-! ## Counting marks -/

/-- A point or a comma. -/
def IsMark (c : Char) : Prop := c = '.' ∨ c = ','

instance : DecidablePred IsMark := fun _ => inferInstanceAs (Decidable (_ ∨ _))

/-- Digits with at most one decimal mark, and at least one digit. -/
structure DecimalDigits (cs : List Char) : Prop where
  chars : ∀ c ∈ cs, c.isDigit = true ∨ IsMark c
  digit : ∃ c ∈ cs, c.isDigit = true
  marks : cs.countP (IsMark ·) ≤ 1

/-- A decimal numeral: digits with at most one decimal mark, behind a sign that may be left out. -/
def DecimalNumeral (cs : List Char) : Prop :=
  ∃ sign negative body, Sign sign negative ∧ DecimalDigits body ∧ cs = sign ++ body

theorem not_isDigit_of_isMark {c : Char} (h : IsMark c) : c.isDigit = false := by
  rcases h with rfl | rfl <;> rfl

theorem isDecimalFrom_iff {marks : Nat} {digit : Bool} {cs : List Char} :
    isDecimalFrom marks digit cs = true ↔ (∀ c ∈ cs, c.isDigit = true ∨ IsMark c) ∧
      (digit = true ∨ ∃ c ∈ cs, c.isDigit = true) ∧ marks + cs.countP (IsMark ·) ≤ 1 := by
  induction cs generalizing marks digit with
  | nil => simp [isDecimalFrom]
  | cons c cs ih =>
    have hmark : (c = '.' ∨ c = ',') = IsMark c := rfl
    simp only [isDecimalFrom, hmark]
    split_ifs with hdigit hmark
    · have hother : ¬IsMark c := fun h => by simp [not_isDigit_of_isMark h] at hdigit
      rw [ih]
      simp [hdigit, hother]
    · rw [ih, List.countP_cons_of_pos (by simpa using hmark)]
      simp [hdigit, hmark, Nat.add_assoc, Nat.add_comm 1]
    · simp [hdigit, hmark]

theorem DecimalDigits.unsigned {cs : List Char} (h : DecimalDigits cs) : Unsigned cs := by
  intro c hc
  have hchar := h.chars c (List.mem_of_mem_head? hc)
  constructor <;> (rintro rfl; exact absurd hchar (by decide))

/-- The check accepts exactly the decimal numerals. -/
theorem isDecimal_iff {cs : List Char} : isDecimal cs = true ↔ DecimalNumeral cs := by
  have hbody : ∀ body, isDecimalFrom 0 false body = true ↔ DecimalDigits body := by
    intro body
    rw [isDecimalFrom_iff, Nat.zero_add]
    exact ⟨fun ⟨hchars, hdigit, hmarks⟩ => ⟨hchars, hdigit.resolve_left (by simp), hmarks⟩,
      fun h => ⟨h.chars, .inr h.digit, h.marks⟩⟩
  rw [isDecimal, hbody]
  constructor
  · intro h
    obtain ⟨sign, hsign, hcs⟩ := splitSign_split cs
    exact ⟨sign, _, _, hsign, h, hcs⟩
  · rintro ⟨sign, negative, body, hsign, h, rfl⟩
    rwa [splitSign_append hsign h.unsigned]

/-! ## Two rows of digits -/

/-- Digits, then maybe a decimal mark and further digits: the number that all of them denote, and
how many stand behind the mark. -/
inductive Scaled : List Char → Nat → Nat → Prop where
  | whole {digits : List Char} {n : Nat} : Numeral digits n → Scaled digits n 0
  | marked {whole fraction : List Char} {mark : Char} {n : Nat} :
      IsMark mark → Numeral (whole ++ fraction) n →
      Scaled (whole ++ mark :: fraction) n fraction.length

/-- A decimal numeral as a sign, an integer and the number of places that are decimals. -/
inductive SignedScaled : List Char → Bool → Nat → Nat → Prop where
  | mk {sign body : List Char} {negative : Bool} {n places : Nat} :
      Sign sign negative → Scaled body n places → SignedScaled (sign ++ body) negative n places

theorem decimalDigits_perm {cs ds : List Char} (h : cs.Perm ds) :
    DecimalDigits cs → DecimalDigits ds := by
  rintro ⟨hchars, ⟨c, hc, hdigit⟩, hmarks⟩
  refine ⟨fun c hc => hchars c (h.mem_iff.2 hc), ⟨c, h.mem_iff.1 hc, hdigit⟩, ?_⟩
  rwa [← h.countP_eq]

theorem decimalDigits_of_unmarked {cs : List Char} (h : cs.countP (IsMark ·) = 0) :
    DecimalDigits cs ↔ ∃ n, Numeral cs n := by
  rw [exists_numeral_iff]
  constructor
  · rintro ⟨hchars, ⟨c, hc, -⟩, -⟩
    refine ⟨List.ne_nil_of_mem hc, fun c hc => (hchars c hc).resolve_right ?_⟩
    simpa using List.countP_eq_zero.1 h c hc
  · rintro ⟨hne, hdigits⟩
    obtain ⟨c, hc⟩ := List.exists_mem_of_ne_nil _ hne
    exact ⟨fun c hc => .inl (hdigits c hc), ⟨c, hc, hdigits c hc⟩, by omega⟩

theorem Numeral.unmarked {cs : List Char} {n : Nat} (h : Numeral cs n) :
    cs.countP (IsMark ·) = 0 := by
  refine List.countP_eq_zero.2 fun c hc hmark => ?_
  have hdigit := h.digits.2 c hc
  simp [not_isDigit_of_isMark (by simpa using hmark)] at hdigit

/-- One mark makes no difference to digits. -/
theorem decimalDigits_cons {cs : List Char} {mark : Char} (hmark : IsMark mark) :
    DecimalDigits (mark :: cs) ↔ ∃ n, Numeral cs n := by
  have hcount := List.countP_cons_of_pos (p := (decide <| IsMark ·)) (l := cs) (a := mark)
    (by simpa using hmark)
  constructor
  · rintro ⟨hchars, ⟨c, hc, hdigit⟩, hmarks⟩
    have hzero : cs.countP (IsMark ·) = 0 := by omega
    rw [← decimalDigits_of_unmarked hzero]
    have hne : c ≠ mark := by
      rintro rfl
      simp [not_isDigit_of_isMark hmark] at hdigit
    exact ⟨fun c hc => hchars c (.tail _ hc), ⟨c, List.mem_of_ne_of_mem hne hc, hdigit⟩, by omega⟩
  · rintro ⟨n, hn⟩
    have hzero := hn.unmarked
    obtain ⟨hchars, ⟨c, hc, hdigit⟩, -⟩ := (decimalDigits_of_unmarked hzero).2 ⟨n, hn⟩
    refine ⟨fun c hc => ?_, ⟨c, .tail _ hc, hdigit⟩, by omega⟩
    rcases List.mem_cons.1 hc with rfl | hc
    · exact .inr hmark
    · exact hchars c hc

/-- The only mark stands between two rows of digits. -/
theorem decimalDigits_iff {cs : List Char} : DecimalDigits cs ↔ ∃ n places, Scaled cs n places := by
  constructor
  · intro h
    by_cases hmark : ∃ c ∈ cs, IsMark c
    · obtain ⟨mark, hmem, hmark⟩ := hmark
      obtain ⟨whole, fraction, rfl⟩ := List.append_of_mem hmem
      -- the order of the characters does not matter to the check: the mark may stand in front
      obtain ⟨n, hn⟩ := (decimalDigits_cons hmark).1 (decimalDigits_perm List.perm_middle h)
      exact ⟨n, _, .marked hmark hn⟩
    · have hzero : cs.countP (IsMark ·) = 0 :=
        List.countP_eq_zero.2 fun c hc hc' => hmark ⟨c, hc, by simpa using hc'⟩
      obtain ⟨n, hn⟩ := (decimalDigits_of_unmarked hzero).1 h
      exact ⟨n, 0, .whole hn⟩
  · rintro ⟨n, places, h⟩
    cases h with
    | whole hn => exact (decimalDigits_of_unmarked hn.unmarked).2 ⟨n, hn⟩
    | marked hmark hn =>
      exact decimalDigits_perm List.perm_middle.symm ((decimalDigits_cons hmark).2 ⟨n, hn⟩)

theorem decimalNumeral_iff {cs : List Char} :
    DecimalNumeral cs ↔ ∃ negative n places, SignedScaled cs negative n places := by
  constructor
  · rintro ⟨sign, negative, body, hsign, hbody, rfl⟩
    obtain ⟨n, places, hscaled⟩ := decimalDigits_iff.1 hbody
    exact ⟨negative, n, places, .mk hsign hscaled⟩
  · rintro ⟨negative, n, places, h⟩
    cases h with
    | mk hsign hscaled => exact ⟨_, _, _, hsign, decimalDigits_iff.2 ⟨n, places, hscaled⟩, rfl⟩

/-! ## Conversion -/

theorem commaToPoint_of_mark {mark : Char} (h : IsMark mark) : commaToPoint mark = '.' := by
  rcases h with rfl | rfl <;> rfl

theorem map_commaToPoint {cs : List Char} (h : ∀ c ∈ cs, c.isDigit = true) :
    cs.map commaToPoint = cs := by
  have hsame : ∀ c ∈ cs, commaToPoint c = id c := by
    intro c hc
    have hcomma : c ≠ ',' := by
      rintro rfl
      exact absurd (h ',' hc) (by decide)
    exact if_neg hcomma
  rw [List.map_congr_left hsame, List.map_id]

theorem decimalParts?_digits {digits : List Char} {n : Nat} (h : Numeral digits n) :
    decimalParts? digits = some (digits, []) := by
  obtain ⟨hne, hdigits⟩ := h.digits
  rw [decimalParts?, List.takeWhile_eq_self_iff.2 hdigits, List.dropWhile_eq_nil_iff.2 hdigits]
  simp [hne]

theorem decimalParts?_point {whole fraction : List Char} {n : Nat}
    (h : Numeral (whole ++ fraction) n) :
    decimalParts? (whole ++ '.' :: fraction) = some (whole, fraction) := by
  obtain ⟨hne, hdigits⟩ := h.digits
  have hwhole : ∀ c ∈ whole, c.isDigit = true := fun c hc => hdigits c (by simp [hc])
  have hfraction : fraction.all Char.isDigit = true :=
    List.all_eq_true.2 fun c hc => hdigits c (by simp [hc])
  have hpoint : ¬Char.isDigit '.' = true := by decide
  rw [decimalParts?, List.takeWhile_append_of_pos hwhole, List.dropWhile_append_of_pos hwhole,
    List.takeWhile_cons_of_neg hpoint, List.dropWhile_cons_of_neg hpoint, List.append_nil]
  simp [hfraction, -List.append_eq_nil_iff, hne]

/-- With its comma written as a point, a decimal numeral splits where its mark stands. -/
theorem Scaled.parts {body : List Char} {n places : Nat} (h : Scaled body n places) :
    ∃ whole fraction, decimalParts? (body.map commaToPoint) = some (whole, fraction) ∧
      Decimal.value (whole ++ fraction) = n ∧ fraction.length = places := by
  cases h with
  | whole hn =>
    rw [map_commaToPoint hn.digits.2]
    exact ⟨body, [], decimalParts?_digits hn, by rw [List.append_nil, hn.value], rfl⟩
  | @marked whole fraction mark n hmark hn =>
    have hmap : (whole ++ mark :: fraction).map commaToPoint = whole ++ '.' :: fraction := by
      have hdigits := map_commaToPoint hn.digits.2
      rw [List.map_append] at hdigits
      obtain ⟨hwhole, hfraction⟩ := List.append_inj hdigits (by simp)
      rw [List.map_append, List.map_cons, commaToPoint_of_mark hmark, hwhole, hfraction]
    rw [hmap]
    exact ⟨whole, fraction, decimalParts?_point hn, hn.value, rfl⟩

theorem Sign.map_commaToPoint {sign : List Char} {negative : Bool} (h : Sign sign negative) :
    sign.map commaToPoint = sign := by
  cases h <;> rfl

theorem Unsigned.map_commaToPoint {cs : List Char} (h : Unsigned cs) :
    Unsigned (cs.map commaToPoint) := by
  intro c hc
  cases cs with
  | nil => cases hc
  | cons d cs =>
    obtain rfl : commaToPoint d = c := Option.some_inj.1 hc
    have hd := h d rfl
    unfold commaToPoint
    split_ifs
    · decide
    · exact hd

namespace Reel
variable {cs : List Char}

theorem parse?_of_scaled {negative : Bool} {n places : Nat}
    (h : SignedScaled cs negative n places) :
    parse? (cs.map commaToPoint) = some (ofDecimal negative n places) := by
  cases h with
  | @mk sign body negative n places hsign hbody =>
    obtain ⟨whole, fraction, hparts, hvalue, hlength⟩ := hbody.parts
    have hunsigned : Unsigned body := (decimalDigits_iff.2 ⟨n, places, hbody⟩).unsigned
    rw [List.map_append, hsign.map_commaToPoint, parse?,
      splitSign_append hsign hunsigned.map_commaToPoint]
    simp only [hparts, Option.map_some, hvalue, hlength]

/-- The conversion succeeds on whatever passes the check. -/
theorem parse?_of_isDecimal (h : isDecimal cs = true) :
    ∃ negative n places, SignedScaled cs negative n places ∧
      parse? (cs.map commaToPoint) = some (ofDecimal negative n places) := by
  obtain ⟨negative, n, places, hscaled⟩ := decimalNumeral_iff.1 (isDecimal_iff.1 h)
  exact ⟨negative, n, places, hscaled, parse?_of_scaled hscaled⟩

/-- What is read as a `REEL` is exactly a decimal numeral, and it is rounded once. -/
theorem read?_eq_some_iff {x : Reel} : read? cs = some x ↔
    ∃ negative n places, SignedScaled cs negative n places ∧ x = ofDecimal negative n places := by
  constructor
  · intro h
    obtain ⟨hdecimal, hparse⟩ : isDecimal cs = true ∧ parse? (cs.map commaToPoint) = some x := by
      simpa [read?] using h
    obtain ⟨negative, n, places, hscaled, hx⟩ := parse?_of_isDecimal hdecimal
    rw [hx, Option.some_inj] at hparse
    exact ⟨negative, n, places, hscaled, hparse.symm⟩
  · rintro ⟨negative, n, places, hscaled, rfl⟩
    have hdecimal : isDecimal cs = true :=
      isDecimal_iff.2 (decimalNumeral_iff.2 ⟨negative, n, places, hscaled⟩)
    rw [read?, if_pos hdecimal, parse?_of_scaled hscaled]

end Reel
end Pseudocode
