import Mathlib.Tactic.IntervalCases
import Pseudocode.Proofs.Lexing.Cut
import Pseudocode.Proofs.Number.Numeral

/-! Tokens as they are written, and how one of them is read back when a space or nothing follows.
A text that does not open a literal, a comment or blanks is never read past a space. -/

namespace Pseudocode
set_option autoImplicit false

/-! ## Writing -/

/-- A character as it stands between two marks `quote`. -/
def escaped (quote c : Char) : List Char :=
  if c = '\n' then ['\\', 'n'] else if c = '\\' ∨ c = quote then ['\\', c] else [c]

/-- The text of a token: its canonical spelling, where it has one. -/
def Token.written : Token → List Char
  | .literal (.integer n) => n.text.toList
  | .literal (.string s) => '"' :: s.toList.flatMap (escaped '"') ++ ['"']
  | .literal (.character c) => '\'' :: escaped '\'' c ++ ['\'']
  | .ident name => name.toList
  | .newline => ['\n']
  | token => (token.spelling?.getD "").toList

/-- Whether a text is a name that is not taken for a fixed spelling. -/
structure FreeName (name : List Char) : Prop where
  pattern : ∃ c rest, name = c :: rest ∧ isNameStart c = true ∧ ∀ d ∈ rest, isNameRest d = true
  free : ∀ s ∈ vocabulary, name.map s.seen ≠ s.text

/-- Whether a token can be written so that it is read back: an integer without a sign, a name that
is no keyword, anything else but a real number. -/
def Token.Writable : Token → Prop
  | .literal (.integer n) => 0 ≤ n.toInt
  | .literal (.real _) => False
  | .ident name => FreeName name.toList
  | _ => True

/-! ## Texts that end at a space -/

/-- Whether a text may be followed by a space that is not part of it. -/
def bare : List Char → Bool
  | [] => false
  | c :: cs => c != '"' && c != '\'' && c != '#' && !isSpace c && (c != '/' || cs.isEmpty)

/-- What stands for anything and holds a space is quoted, a comment or blanks. -/
theorem Denotes.guarded {text : List Char} {m : Meaning} (h : Denotes text m)
    (hspace : ' ' ∈ text) : ∃ c cs, text = c :: cs ∧ (c = '"' ∨ c = '\'' ∨ c = '#' ∨
      isSpace c = true ∨ c = '/' ∧ (cs.head? = some '/' ∨ cs.head? = some '*')) := by
  have hdigits : ∀ {digits : List Char}, (∀ d ∈ digits, d.isDigit = true) → ' ' ∉ digits :=
    fun hdigits hmem => by simpa using hdigits ' ' hmem
  cases h with
  | @spelling s text hs htext =>
    have hmem := List.mem_map_of_mem (f := s.seen) hspace
    rw [htext, s.seen_space] at hmem
    exact absurd hmem (vocabulary_no_space s hs)
  | name hstart hrest =>
    obtain rfl | hmem := List.mem_cons.mp hspace
    · exact absurd hstart (by decide)
    · exact absurd (hrest ' ' hmem) (by decide)
  | integer _ hall => exact absurd hspace (hdigits hall)
  | tooLarge _ hall => exact absurd hspace (hdigits hall)
  | real _ hwhole _ hfraction =>
    simp only [List.mem_append, List.mem_cons] at hspace
    obtain hmem | hmem | hmem := hspace
    · exact absurd hmem (hdigits hwhole)
    · exact absurd hmem (by decide)
    · exact absurd hmem (hdigits hfraction)
  | string => exact ⟨_, _, rfl, by simp⟩
  | character => exact ⟨_, _, rfl, by simp⟩
  | escapedCharacter => exact ⟨_, _, rfl, by simp⟩
  | lineComment hmark => obtain rfl | rfl := hmark <;> exact ⟨_, _, rfl, by simp⟩
  | blockComment => exact ⟨_, _, rfl, by simp⟩
  | blanks hne hall =>
    obtain ⟨c, cs, rfl⟩ := List.exists_cons_of_ne_nil hne
    exact ⟨c, cs, rfl, by simp [hall c]⟩

/-- Whether a text ends or goes on with a space. -/
def Parted (rest : List Char) : Prop :=
  rest = [] ∨ ∃ more, rest = ' ' :: more

theorem length_le_of_bare {w rest other : List Char} {n : Meaning} (hw : bare w = true)
    (hrest : Parted rest) (hother : other <+: w ++ rest) (hn : Denotes other n) :
    other.length ≤ w.length := by
  by_contra hlonger
  obtain rfl | ⟨more, rfl⟩ := hrest
  · have hle := hother.length_le
    simp at hle
    omega
  · have hw' : w ++ [' '] <+: w ++ ' ' :: more := by simp
    obtain ⟨left, rfl⟩ := List.prefix_of_prefix_length_le hw' hother (by simp; omega)
    obtain ⟨c, cs, heq, hguard⟩ := hn.guarded (by simp)
    cases w with
    | nil => cases hw
    | cons d w =>
      simp only [List.cons_append, List.cons.injEq] at heq
      obtain ⟨rfl, rfl⟩ := heq
      cases w <;> simp_all [bare]

/-- A text that ends at a space is read back as the token it stands for, when it stands for no
other. -/
theorem longest_of_bare {w rest : List Char} {token : Token} (hbare : bare w = true)
    (hrest : Parted rest) (hw : Denotes w (.token token))
    (honly : ∀ m, Foremost w m rest → m = .token token) :
    longest (readings (w ++ rest)) = some ⟨w.length, .token token⟩ := by
  obtain ⟨s, hs, -⟩ := hw.exists_reading rest
  cases hlongest : longest (readings (w ++ rest)) with
  | none => simp [longest_eq_none hlongest] at hs
  | some r =>
    obtain ⟨text, rest', hsplit, hlength, hforemost⟩ := foremost_of_longest hlongest
    have hle := length_le_of_bare hbare hrest ⟨rest', hsplit.symm⟩ hforemost.denotes
    have hge := hforemost.longest ⟨rest, hsplit⟩ hw
    obtain ⟨rfl, rfl⟩ := List.append_inj hsplit (by omega)
    obtain ⟨length, m⟩ := r
    obtain rfl : length = w.length := hlength
    rw [honly m hforemost]

/-! ## Fixed spellings -/

theorem longest_fixed {w rest : List Char} {s : Spelling} (hbare : bare w = true)
    (hrest : Parted rest) (hs : s ∈ vocabulary) (hw : w.map s.seen = s.text) :
    longest (readings (w ++ rest)) = some ⟨w.length, .token s.token⟩ :=
  longest_of_bare hbare hrest (.spelling hs hw) fun _ hm => hm.fixed s hs hw

/-- Canonical spellings are among the fixed ones, but for the one of two words. -/
theorem canonical_fixed {token : Token} {text : String} (h : token.spelling? = some text)
    (hjoined : token ≠ .keyword .tantQue) : bare text.toList = true ∧
      ∃ s ∈ vocabulary, s.token = token ∧ text.toList.map s.seen = s.text := by
  cases token with
  | literal value =>
    cases value with
    | boolean b =>
      cases h
      cases b <;> decide +kernel
    | _ => cases h
  | type ty =>
    cases h
    cases ty <;> decide +kernel
  | keyword word =>
    cases h
    cases word <;> first | contradiction | decide +kernel
  | op o =>
    cases h
    cases o <;> decide +kernel
  | punct mark =>
    cases h
    cases mark <;> decide +kernel
  | ident | newline => cases h

/-! ## Names and integers -/

/-- Ten cases: a digit begins no name, is no blank, has no letter case and opens nothing. -/
theorem digit_first {c : Char} (h : c.isDigit = true) : isNameStart c = false ∧
    isSpace c = false ∧ foldCase c = c ∧ ∀ cs, bare (c :: cs) = true := by
  have hrange : 48 ≤ c.toNat ∧ c.toNat ≤ 57 := by
    simpa [Char.isDigit, UInt32.le_iff_toNat_le] using h
  have hc : Char.ofNat c.toNat = c := Char.ofNat_toNat c
  generalize c.toNat = n at hrange hc
  obtain ⟨hlow, hhigh⟩ := hrange
  interval_cases n <;> subst hc <;> exact ⟨rfl, rfl, rfl, fun _ => rfl⟩

theorem Spelling.seen_of_spellsNothing (s : Spelling) {c : Char} (h : spellsNothing c = true) :
    s.seen c = c := by
  have hfold : foldCase c = c := by
    simp only [spellsNothing, Bool.or_eq_true, beq_iff_eq] at h
    obtain ((hdigit | rfl) | rfl) | rfl := h
    · exact (digit_first hdigit).2.2.1
    all_goals rfl
  unfold Spelling.seen
  split
  · rfl
  · exact hfold

theorem not_spelled_of_spellsNothing {s : Spelling} (hs : s ∈ vocabulary) {c : Char}
    (h : spellsNothing c = true) (cs : List Char) : (c :: cs).map s.seen ≠ s.text := by
  intro htext
  have hhead : s.text.head? = some c := by
    rw [← htext, List.map_cons, List.head?_cons, s.seen_of_spellsNothing h]
  exact vocabulary_head_spells s hs (by simp [hhead, h])

theorem fixed_readings_of_spellsNothing {c : Char} (h : spellsNothing c = true) (cs : List Char) :
    vocabulary.filterMap (·.reading? (c :: cs)) = [] := by
  refine List.filterMap_eq_nil_iff.mpr fun s hs => ?_
  cases hread : s.reading? (c :: cs) with
  | none => rfl
  | some r =>
    obtain ⟨text, rest, hsplit, htext, -⟩ := Spelling.reading?_eq_some hread
    cases text with
    | nil => exact absurd htext.symm (vocabulary_text_ne_nil s hs)
    | cons d text =>
      obtain ⟨rfl, -⟩ := List.cons.inj hsplit
      exact absurd htext (not_spelled_of_spellsNothing hs h text)

theorem isDigit_of_letter {c : Char} (h : isNameStart c = true) : c.isDigit = false := by
  by_contra hdigit
  have hfirst := (digit_first (Bool.of_not_eq_false hdigit)).1
  simp [h] at hfirst

theorem isSpace_of_letter {c : Char} (h : isNameStart c = true) : isSpace c = false := by
  by_contra hspace
  simp only [isSpace, Bool.not_eq_false, Bool.or_eq_true, beq_iff_eq] at hspace
  obtain ((rfl | rfl) | rfl) | rfl := hspace
  all_goals exact absurd h (by decide)

/-- A text that begins with a letter is a name, or else a fixed spelling. -/
theorem Denotes.of_letter {c : Char} {cs : List Char} {m : Meaning} (h : Denotes (c :: cs) m)
    (hc : isNameStart c = true) : m = .token (.ident (String.ofList (c :: cs))) ∨
      ∃ s ∈ vocabulary, (c :: cs).map s.seen = s.text := by
  have hdigit := isDigit_of_letter hc
  have hspace := isSpace_of_letter hc
  generalize hw : c :: cs = w at h
  cases h with
  | spelling hs htext => exact .inr ⟨_, hs, htext⟩
  | name => exact .inl rfl
  | integer _ hall | tooLarge _ hall | blanks _ hall =>
    have hfirst := hall c (by simp [← hw])
    simp_all
  | real hne hwhole =>
    obtain ⟨d, whole, rfl⟩ := List.exists_cons_of_ne_nil hne
    obtain ⟨rfl, -⟩ := List.cons.inj hw
    have hfirst := hwhole c List.mem_cons_self
    simp_all
  | lineComment hmark =>
    obtain rfl | rfl := hmark
    all_goals obtain ⟨rfl, -⟩ := List.cons.inj hw
    all_goals exact absurd hc (by decide)
  | string | character | escapedCharacter | blockComment =>
    obtain ⟨rfl, -⟩ := List.cons.inj hw
    exact absurd hc (by decide)

theorem FreeName.bare {name : List Char} (h : FreeName name) : bare name = true := by
  obtain ⟨c, cs, rfl, hstart, -⟩ := h.pattern
  have hspace := isSpace_of_letter hstart
  have hmarks : c ≠ '"' ∧ c ≠ '\'' ∧ c ≠ '#' ∧ c ≠ '/' := by
    refine ⟨?_, ?_, ?_, ?_⟩ <;> (rintro rfl; exact absurd hstart (by decide))
  simp [Pseudocode.bare, hspace, hmarks]

theorem longest_name {name rest : List Char} (h : FreeName name) (hrest : Parted rest) :
    longest (readings (name ++ rest)) =
      some ⟨name.length, .token (.ident (String.ofList name))⟩ := by
  have hbare := h.bare
  obtain ⟨⟨c, cs, rfl, hstart, hcs⟩, hfree⟩ := h
  refine longest_of_bare hbare hrest (.name hstart hcs) fun m hm => ?_
  obtain rfl | ⟨s, hs, htext⟩ := hm.denotes.of_letter hstart
  · rfl
  · exact absurd htext (hfree s hs)

theorem bare_of_digits {digits : List Char} (hne : digits ≠ [])
    (hall : ∀ d ∈ digits, d.isDigit = true) : bare digits = true := by
  obtain ⟨c, cs, rfl⟩ := List.exists_cons_of_ne_nil hne
  have hfirst := digit_first (hall c List.mem_cons_self)
  exact hfirst.2.2.2 cs

/-- Digits that end at a space are an integer literal, whether it has a value or not. -/
theorem longest_digits {digits rest : List Char} (hne : digits ≠ [])
    (hall : ∀ d ∈ digits, d.isDigit = true) (hrest : Parted rest) :
    longest (readings (digits ++ rest)) = some ⟨digits.length, integerMeaning digits⟩ := by
  have hstop : rest.takeWhile Char.isDigit = [] ∧
      fractionDigits (rest.dropWhile Char.isDigit) = [] := by
    obtain rfl | ⟨more, rfl⟩ := hrest <;> exact ⟨rfl, rfl⟩
  have hnumber : number? (digits ++ rest) = some ⟨digits.length, integerMeaning digits⟩ := by
    rw [number?_eq, List.takeWhile_append_of_pos hall, List.dropWhile_append_of_pos hall, hstop.1,
      List.append_nil, if_neg hne, if_pos hstop.2]
  obtain ⟨c, cs, rfl⟩ := List.exists_cons_of_ne_nil hne
  have hc := hall c List.mem_cons_self
  obtain ⟨hletter, hspace, -, -⟩ := digit_first hc
  have hfixed := fixed_readings_of_spellsNothing (c := c) (by simp [spellsNothing, hc]) (cs ++ rest)
  have hmarks : c ≠ '"' ∧ c ≠ '\'' ∧ c ≠ '#' ∧ c ≠ '/' := by
    refine ⟨?_, ?_, ?_, ?_⟩ <;> (rintro rfl; exact absurd hc (by decide))
  rw [List.cons_append] at hnumber ⊢
  simp [readings, hfixed, hnumber, name?, hletter, string?, character?, comment?, spaces?, hspace,
    hmarks, longest]

theorem integerMeaning_of_numeral {digits : List Char} {n : Nat} (h : Numeral digits n) :
    integerMeaning digits = (Entier.ofInt? n).elim
      (.refused (.integerTooLarge (String.ofList digits))) fun a => .token (.literal (.integer a)) := by
  simp only [integerMeaning_eq, h.value]

theorem longest_integer {n : Entier} (h : 0 ≤ n.toInt) {rest : List Char} (hrest : Parted rest) :
    longest (readings (n.text.toList ++ rest)) =
      some ⟨n.text.toList.length, .token (.literal (.integer n))⟩ := by
  obtain ⟨hne, hall⟩ := Entier.text_digits h
  have hnumeral := numeral_toDigits n.toInt.toNat
  rw [← Entier.text_toList h] at hnumeral
  rw [longest_digits hne hall hrest, integerMeaning_of_numeral hnumeral, Int.toNat_of_nonneg h,
    Entier.ofInt?_toInt]
  rfl

/-! ## Quoted literals -/

theorem quoted_flatMap (content : List Char) :
    Quoted (content.flatMap (escaped '"')) content := by
  induction content with
  | nil => exact .nil
  | cons c content ih =>
    rw [List.flatMap_cons, escaped]
    split
    case isTrue hfeed =>
      subst hfeed
      exact .escaped (by decide) ih
    case isFalse hfeed =>
      split
      case isTrue hmark =>
        obtain rfl | rfl := hmark
        all_goals exact .escaped (by decide) ih
      case isFalse hmark =>
        obtain ⟨hslash, hquote⟩ := not_or.mp hmark
        exact .plain hquote hslash hfeed ih

theorem readings_of_quote (cs : List Char) :
    readings ('"' :: cs) = (string? ('"' :: cs)).toList := by
  have hfixed := fixed_readings_of_spellsNothing (c := '"') rfl cs
  cases hstring : string? ('"' :: cs)
  all_goals simp [readings, hfixed, hstring, name?, number?, character?, comment?, spaces?, isSpace,
    isNameStart]

theorem readings_of_mark (cs : List Char) :
    readings ('\'' :: cs) = (character? ('\'' :: cs)).toList := by
  have hfixed := fixed_readings_of_spellsNothing (c := '\'') rfl cs
  cases hcharacter : character? ('\'' :: cs)
  all_goals simp [readings, hfixed, hcharacter, name?, number?, string?, comment?, spaces?, isSpace,
    isNameStart]

theorem longest_string (s : String) (rest : List Char) :
    longest (readings ('"' :: s.toList.flatMap (escaped '"') ++ ['"'] ++ rest)) =
      some ⟨('"' :: s.toList.flatMap (escaped '"') ++ ['"']).length,
        .token (.literal (.string s))⟩ := by
  have hstring := string?_append (quoted_flatMap s.toList) rest
  rw [String.ofList_toList] at hstring
  simp only [List.cons_append] at hstring ⊢
  rw [readings_of_quote, hstring]
  rfl

theorem longest_character (c : Char) (rest : List Char) :
    longest (readings ('\'' :: escaped '\'' c ++ ['\''] ++ rest)) =
      some ⟨('\'' :: escaped '\'' c ++ ['\'']).length, .token (.literal (.character c))⟩ := by
  have hcharacter : character? ('\'' :: escaped '\'' c ++ ['\''] ++ rest) =
      some ⟨('\'' :: escaped '\'' c ++ ['\'']).length, .token (.literal (.character c))⟩ := by
    unfold escaped
    split
    case isTrue hfeed =>
      subst hfeed
      rfl
    case isFalse hfeed =>
      split
      case isTrue hmark => obtain rfl | rfl := hmark <;> rfl
      case isFalse hmark =>
        obtain ⟨hslash, hquote⟩ := not_or.mp hmark
        exact character?_plain rest hquote hslash hfeed
  simp only [List.cons_append] at hcharacter ⊢
  rw [readings_of_mark, hcharacter]
  rfl

/-! ## One token -/

theorem written_of_spelling? {token : Token} {text : String} (h : token.spelling? = some text) :
    token.written = text.toList := by
  cases token with
  | literal value =>
    cases value with
    | boolean => cases h; rfl
    | _ => cases h
  | ident | newline => cases h
  | _ => cases h; rfl

/-- A written token is read back, whatever stands after the space that follows it. -/
theorem longest_written {token : Token} (h : token.Writable) (hjoined : token ≠ .keyword .tantQue)
    {rest : List Char} (hrest : Parted rest) :
    longest (readings (token.written ++ rest)) = some ⟨token.written.length, .token token⟩ := by
  cases hspelling : token.spelling? with
  | some text =>
    obtain ⟨hbare, s, hs, rfl, htext⟩ := canonical_fixed hspelling hjoined
    rw [written_of_spelling? hspelling]
    exact longest_fixed hbare hrest hs htext
  | none =>
    cases token with
    | literal value =>
      cases value with
      | integer n => exact longest_integer h hrest
      | real => cases h
      | string s => exact longest_string s rest
      | character c => exact longest_character c rest
      | boolean => cases hspelling
    | ident name =>
      have hname := longest_name h hrest
      rwa [String.ofList_toList] at hname
    | newline =>
      have hfixed : ∃ s ∈ vocabulary, s.token = .newline ∧ ['\n'].map s.seen = s.text := by
        decide +kernel
      obtain ⟨s, hs, htoken, htext⟩ := hfixed
      have hread := longest_fixed rfl hrest hs htext
      rwa [htoken] at hread
    | type | keyword | op | punct => cases hspelling

theorem written_first {token : Token} (h : token.Writable) :
    ∃ c cs, token.written = c :: cs ∧ isSpace c = false := by
  have hbare : ∀ w, bare w = true → ∃ c cs, w = c :: cs ∧ isSpace c = false := fun w hw => by
    cases w with
    | nil => cases hw
    | cons c cs => exact ⟨c, cs, rfl, by simp_all [bare]⟩
  cases hspelling : token.spelling? with
  | some text =>
    rw [written_of_spelling? hspelling]
    by_cases hjoined : token = .keyword .tantQue
    · subst hjoined
      cases hspelling
      exact ⟨'T', _, rfl, rfl⟩
    · exact hbare _ (canonical_fixed hspelling hjoined).1
  | none =>
    cases token with
    | literal value =>
      cases value with
      | integer n => exact hbare _ (bare_of_digits (Entier.text_digits h).1 (Entier.text_digits h).2)
      | real => cases h
      | string | character => exact ⟨_, _, rfl, rfl⟩
      | boolean => cases hspelling
    | ident name => exact hbare _ (FreeName.bare h)
    | newline => exact ⟨_, _, rfl, rfl⟩
    | type | keyword | op | punct => cases hspelling

end Pseudocode
