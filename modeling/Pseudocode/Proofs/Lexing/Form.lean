import Mathlib.Data.List.TakeWhile
import Pseudocode.Proofs.Lexing.Vocabulary
import Pseudocode.Proofs.Number.Entier
import Pseudocode.Token.Piece

/-! What may stand in a source, told by its form and not by how it is found: fixed spellings,
names, literals, comments and blanks. The readings at a place have these forms, and no text of such
a form is longer than the longest of them. -/

namespace Pseudocode
set_option autoImplicit false

/-! ## Forms -/

/-- What stands between the quotes of a string literal, and the content it is written for. -/
inductive Quoted : List Char → List Char → Prop where
  | nil : Quoted [] []
  | plain {c : Char} {raw content : List Char} : c ≠ '"' → c ≠ '\\' → c ≠ '\n' →
      Quoted raw content → Quoted (c :: raw) (c :: content)
  | escaped {c : Char} {raw content : List Char} : c ≠ '\n' →
      Quoted raw content → Quoted ('\\' :: c :: raw) (unescape c :: content)

/-- Whether the mark that closes a comment does not stand in its body, nor where the body meets
that mark. -/
def Unclosed (body : List Char) : Prop :=
  ¬['*', '/'] <:+: body ++ ['*']

/-- What a text as a whole may stand for. -/
inductive Denotes : List Char → Meaning → Prop where
  | spelling {s : Spelling} {text : List Char} : s ∈ vocabulary → text.map s.seen = s.text →
      Denotes text (.token s.token)
  | name {c : Char} {rest : List Char} : isNameStart c = true →
      (∀ d ∈ rest, isNameRest d = true) →
      Denotes (c :: rest) (.token (.ident (String.ofList (c :: rest))))
  | integer {digits : List Char} {n : Entier} : digits ≠ [] →
      (∀ d ∈ digits, d.isDigit = true) → n.toInt = Decimal.value digits →
      Denotes digits (.token (.literal (.integer n)))
  | tooLarge {digits : List Char} : digits ≠ [] → (∀ d ∈ digits, d.isDigit = true) →
      9223372036854775808 ≤ Decimal.value digits →
      Denotes digits (.refused (.integerTooLarge (String.ofList digits)))
  | real {whole fraction : List Char} : whole ≠ [] → (∀ d ∈ whole, d.isDigit = true) →
      fraction ≠ [] → (∀ d ∈ fraction, d.isDigit = true) →
      Denotes (whole ++ '.' :: fraction) (.token (.literal (.real
        (Reel.ofDecimal false (Decimal.value (whole ++ fraction)) fraction.length))))
  | string {raw content : List Char} : Quoted raw content →
      Denotes ('"' :: raw ++ ['"']) (.token (.literal (.string (String.ofList content))))
  | character {c : Char} : c ≠ '\'' → c ≠ '\\' → c ≠ '\n' →
      Denotes ['\'', c, '\''] (.token (.literal (.character c)))
  | escapedCharacter {c : Char} : c ≠ '\n' →
      Denotes ['\'', '\\', c, '\''] (.token (.literal (.character (unescape c))))
  | lineComment {mark rest : List Char} : mark = ['#'] ∨ mark = ['/', '/'] →
      (∀ d ∈ rest, d ≠ '\n') → Denotes (mark ++ rest) .skipped
  | blockComment {body : List Char} : Unclosed body →
      Denotes ('/' :: '*' :: body ++ ['*', '/']) .skipped
  | blanks {text : List Char} : text ≠ [] → (∀ c ∈ text, isSpace c = true) → Denotes text .skipped

/-- Whether a reading is one of the front of a text. -/
def Reading.Of (r : Reading) (cs : List Char) : Prop :=
  ∃ text rest, cs = text ++ rest ∧ r.length = text.length ∧ Denotes text r.meaning

theorem Denotes.of_append {text : List Char} {m : Meaning} (h : Denotes text m) (rest : List Char) :
    Reading.Of ⟨text.length, m⟩ (text ++ rest) :=
  ⟨text, rest, rfl, rfl, h⟩

/-! ## Rows of characters of one kind -/

theorem length_le_takeWhile {p : Char → Bool} {text : List Char} (rest : List Char)
    (htext : ∀ c ∈ text, p c = true) : text.length ≤ ((text ++ rest).takeWhile p).length := by
  rw [List.takeWhile_append_of_pos htext, List.length_append]
  omega

/-! ## Fixed spellings -/

theorem Spelling.reading?_eq_some {s : Spelling} {cs : List Char} {r : Reading}
    (h : s.reading? cs = some r) :
    ∃ text rest, cs = text ++ rest ∧ text.map s.seen = s.text ∧
      r = ⟨text.length, .token s.token⟩ := by
  unfold Spelling.reading? at h
  split at h
  case isTrue hstands =>
    obtain rfl := Option.some.inj h
    obtain ⟨text, rest, rfl, htext⟩ := (s.stands_iff cs).mp hstands
    exact ⟨text, rest, rfl, htext, by rw [← htext, List.length_map]⟩
  case isFalse => cases h

theorem Spelling.reading?_append {s : Spelling} {text : List Char}
    (htext : text.map s.seen = s.text) (rest : List Char) :
    s.reading? (text ++ rest) = some ⟨text.length, .token s.token⟩ := by
  have hstands := (s.stands_iff (text ++ rest)).mpr ⟨text, rest, rfl, htext⟩
  have hlength : s.text.length = text.length := by rw [← htext, List.length_map]
  simp [Spelling.reading?, hstands, hlength]

/-! ## Names -/

theorem name?_of {cs : List Char} {r : Reading} (h : name? cs = some r) : r.Of cs := by
  cases cs with
  | nil => cases h
  | cons c rest =>
    simp only [name?] at h
    split at h
    case isTrue hstart =>
      obtain rfl := Option.some.inj h
      refine ⟨c :: rest.takeWhile isNameRest, rest.dropWhile isNameRest, ?_, rfl, ?_⟩
      · rw [List.cons_append, List.takeWhile_append_dropWhile]
      · exact .name hstart fun d hd => List.mem_takeWhile_imp hd
    case isFalse => cases h

theorem name?_append {c : Char} {name : List Char} (rest : List Char)
    (hstart : isNameStart c = true) (hname : ∀ d ∈ name, isNameRest d = true) :
    ∃ r, name? (c :: name ++ rest) = some r ∧ (c :: name).length ≤ r.length := by
  have hlength := length_le_takeWhile rest hname
  simp [name?, hstart]
  simpa using hlength

/-! ## Numbers -/

/-- Stated of the function and not of its value: unfolded at a row of digits it is compared with
the largest `ENTIER` one by one. -/
theorem integerMeaning_eq : integerMeaning = fun digits =>
    (Entier.ofInt? (Decimal.value digits)).elim (.refused (.integerTooLarge (String.ofList digits)))
      fun n => .token (.literal (.integer n)) := by
  delta integerMeaning
  funext digits
  generalize Entier.ofInt? (Decimal.value digits) = n?
  cases n? <;> rfl

theorem integerMeaning_denotes {digits : List Char} (hne : digits ≠ [])
    (hdigits : ∀ d ∈ digits, d.isDigit = true) : Denotes digits (integerMeaning digits) := by
  simp only [integerMeaning_eq]
  cases hvalue : Entier.ofInt? (Decimal.value digits) with
  | none =>
    have hrange := Entier.not_bounds_of_ofInt?_eq_none hvalue
    exact .tooLarge hne hdigits (by omega)
  | some n => exact .integer hne hdigits (Entier.toInt_of_ofInt? hvalue)

/-- The digits after a point at the front of a text. -/
def fractionDigits : List Char → List Char
  | '.' :: rest => rest.takeWhile Char.isDigit
  | _ => []

theorem number?_eq (cs : List Char) : number? cs =
    if cs.takeWhile Char.isDigit = [] then none
    else if fractionDigits (cs.dropWhile Char.isDigit) = [] then
      some ⟨(cs.takeWhile Char.isDigit).length, integerMeaning (cs.takeWhile Char.isDigit)⟩
    else
      some ⟨(cs.takeWhile Char.isDigit).length + 1 +
          (fractionDigits (cs.dropWhile Char.isDigit)).length,
        .token (.literal (.real (Reel.ofDecimal false
          (Decimal.value (cs.takeWhile Char.isDigit ++ fractionDigits (cs.dropWhile Char.isDigit)))
          (fractionDigits (cs.dropWhile Char.isDigit)).length)))⟩ := by
  simp only [← List.isEmpty_iff]
  rfl

theorem fractionDigits_isDigit {cs : List Char} : ∀ d ∈ fractionDigits cs, d.isDigit = true := by
  intro d hd
  unfold fractionDigits at hd
  split at hd
  · exact List.mem_takeWhile_imp hd
  · cases hd

theorem eq_of_fractionDigits_ne_nil {cs : List Char} (h : fractionDigits cs ≠ []) :
    ∃ rest, cs = '.' :: (fractionDigits cs ++ rest) := by
  revert h
  fun_cases fractionDigits cs with
  | case1 rest => exact fun _ => ⟨_, by rw [List.takeWhile_append_dropWhile]⟩
  | case2 => exact fun h => absurd rfl h

theorem number?_of {cs : List Char} {r : Reading} (h : number? cs = some r) : r.Of cs := by
  have hsplit : cs.takeWhile Char.isDigit ++ cs.dropWhile Char.isDigit = cs :=
    List.takeWhile_append_dropWhile
  have hwhole : ∀ d ∈ cs.takeWhile Char.isDigit, d.isDigit = true := fun d hd =>
    List.mem_takeWhile_imp hd
  rw [number?_eq] at h
  split at h
  case isTrue => cases h
  case isFalse hne =>
    split at h
    case isTrue =>
      obtain rfl := Option.some.inj h
      have hread := (integerMeaning_denotes hne hwhole).of_append (cs.dropWhile Char.isDigit)
      rwa [hsplit] at hread
    case isFalse hfraction =>
      obtain rfl := Option.some.inj h
      obtain ⟨rest, hrest⟩ := eq_of_fractionDigits_ne_nil hfraction
      refine ⟨_, rest, ?_, ?_, .real hne hwhole hfraction fractionDigits_isDigit⟩
      · rw [List.append_assoc, List.cons_append, ← hrest, hsplit]
      · simp only [List.length_append, List.length_cons]
        omega

theorem number?_digits {digits : List Char} (rest : List Char) (hne : digits ≠ [])
    (hdigits : ∀ d ∈ digits, d.isDigit = true) :
    ∃ r, number? (digits ++ rest) = some r ∧ digits.length ≤ r.length := by
  have hlength := length_le_takeWhile rest hdigits
  have hwhole : (digits ++ rest).takeWhile Char.isDigit ≠ [] := by
    rw [List.takeWhile_append_of_pos hdigits]
    simp [hne]
  rw [number?_eq, if_neg hwhole]
  split
  all_goals refine ⟨_, rfl, ?_⟩
  all_goals simp only
  all_goals omega

theorem number?_real {whole fraction : List Char} (rest : List Char) (hne : whole ≠ [])
    (hwhole : ∀ d ∈ whole, d.isDigit = true) (hfraction_ne : fraction ≠ [])
    (hfraction : ∀ d ∈ fraction, d.isDigit = true) :
    ∃ r, number? (whole ++ '.' :: fraction ++ rest) = some r ∧
      (whole ++ '.' :: fraction).length ≤ r.length := by
  have hlength := length_le_takeWhile rest hfraction
  have htake : (whole ++ '.' :: (fraction ++ rest)).takeWhile Char.isDigit = whole := by
    rw [List.takeWhile_append_of_pos hwhole]
    simp
  have hdrop : fractionDigits ((whole ++ '.' :: (fraction ++ rest)).dropWhile Char.isDigit) =
      (fraction ++ rest).takeWhile Char.isDigit := by
    rw [List.dropWhile_append_of_pos hwhole]
    rfl
  have hdigits : (fraction ++ rest).takeWhile Char.isDigit ≠ [] := by
    rw [List.takeWhile_append_of_pos hfraction]
    simp [hfraction_ne]
  rw [List.append_assoc, List.cons_append, number?_eq, htake, hdrop, if_neg hne, if_neg hdigits]
  refine ⟨_, rfl, ?_⟩
  simp only [List.length_append, List.length_cons]
  omega

/-! ## Quoted literals -/

theorem stringBody_append {raw content : List Char} (h : Quoted raw content) (rest : List Char) :
    stringBody (raw ++ '"' :: rest) = some (content, raw.length + 1) := by
  induction h with
  | nil => rfl
  | @plain c raw content hquote hslash hfeed _ ih =>
    rw [List.cons_append, stringBody.eq_def]
    split <;> simp_all
  | @escaped c raw content hfeed _ ih => simp [stringBody, hfeed, ih]

theorem quoted_of_stringBody {cs content : List Char} {length : Nat}
    (h : stringBody cs = some (content, length)) :
    ∃ raw rest, cs = raw ++ '"' :: rest ∧ length = raw.length + 1 ∧ Quoted raw content := by
  fun_induction stringBody cs generalizing content length with
  | case1 => cases h
  | case2 rest =>
    obtain ⟨rfl, rfl⟩ : [] = content ∧ 1 = length := by simpa using h
    exact ⟨[], rest, rfl, rfl, .nil⟩
  | case3 => cases h
  | case4 => cases h
  | case5 => cases h
  | case6 c rest hfeed ih =>
    obtain ⟨⟨content, length⟩, hrest, heq⟩ := Option.map_eq_some_iff.mp h
    obtain ⟨rfl, rfl⟩ : unescape c :: content = _ ∧ length + 2 = _ := by simpa using heq
    obtain ⟨raw, rest, rfl, rfl, hraw⟩ := ih hrest
    exact ⟨'\\' :: c :: raw, rest, rfl, by simp, .escaped hfeed hraw⟩
  | case7 c rest hquote hfeed hlast hslash ih =>
    obtain ⟨⟨content, length⟩, hrest, heq⟩ := Option.map_eq_some_iff.mp h
    obtain ⟨rfl, rfl⟩ : c :: content = _ ∧ length + 1 = _ := by simpa using heq
    obtain ⟨raw, rest, rfl, rfl, hraw⟩ := ih hrest
    have hplain : c ≠ '\\' := fun hc => by cases raw <;> exact hslash _ _ hc rfl
    exact ⟨c :: raw, rest, rfl, rfl, .plain hquote hplain hfeed hraw⟩

theorem string?_of {cs : List Char} {r : Reading} (h : string? cs = some r) : r.Of cs := by
  unfold string? at h
  split at h
  · obtain ⟨⟨content, length⟩, hbody, rfl⟩ := Option.map_eq_some_iff.mp h
    obtain ⟨raw, rest, rfl, rfl, hraw⟩ := quoted_of_stringBody hbody
    exact ⟨_, rest, by simp, by simp, .string hraw⟩
  · cases h

theorem string?_append {raw content : List Char} (h : Quoted raw content) (rest : List Char) :
    string? ('"' :: raw ++ ['"'] ++ rest) =
      some ⟨('"' :: raw ++ ['"']).length, .token (.literal (.string (String.ofList content)))⟩ := by
  simp [string?, stringBody_append h]

theorem character?_of {cs : List Char} {r : Reading} (h : character? cs = some r) : r.Of cs := by
  unfold character? at h
  split at h
  · split at h
    · cases h
    · obtain rfl := Option.some.inj h
      exact ⟨_, _, rfl, rfl, .escapedCharacter ‹_›⟩
  · split at h
    · cases h
    · obtain rfl := Option.some.inj h
      exact ⟨_, _, rfl, rfl, .character (by simp_all) (by simp_all) (by simp_all)⟩
  · cases h

theorem character?_plain {c : Char} (rest : List Char) (hquote : c ≠ '\'') (hslash : c ≠ '\\')
    (hfeed : c ≠ '\n') :
    character? (['\'', c, '\''] ++ rest) = some ⟨3, .token (.literal (.character c))⟩ := by
  simp [character?, hquote, hslash, hfeed]

theorem character?_escaped {c : Char} (rest : List Char) (hfeed : c ≠ '\n') :
    character? (['\'', '\\', c, '\''] ++ rest) =
      some ⟨4, .token (.literal (.character (unescape c)))⟩ := by
  simp [character?, hfeed]

theorem of_string? {cs : List Char} {r : Reading} (h : string? cs = some r) :
    ∃ raw content rest, Quoted raw content ∧ cs = '"' :: raw ++ ['"'] ++ rest ∧
      r = ⟨('"' :: raw ++ ['"']).length, .token (.literal (.string (String.ofList content)))⟩ := by
  unfold string? at h
  split at h
  · obtain ⟨⟨content, length⟩, hbody, rfl⟩ := Option.map_eq_some_iff.mp h
    obtain ⟨raw, rest, rfl, rfl, hraw⟩ := quoted_of_stringBody hbody
    exact ⟨raw, content, rest, hraw, by simp, by simp⟩
  · cases h

theorem of_character? {cs : List Char} {r : Reading} (h : character? cs = some r) :
    (∃ c rest, c ≠ '\'' ∧ c ≠ '\\' ∧ c ≠ '\n' ∧ cs = ['\'', c, '\''] ++ rest ∧
      r = ⟨3, .token (.literal (.character c))⟩) ∨
    ∃ c rest, c ≠ '\n' ∧ cs = ['\'', '\\', c, '\''] ++ rest ∧
      r = ⟨4, .token (.literal (.character (unescape c)))⟩ := by
  unfold character? at h
  split at h
  · split at h
    · cases h
    · next hfeed => exact .inr ⟨_, _, hfeed, rfl, (Option.some.inj h).symm⟩
  · split at h
    · cases h
    · next hplain =>
      obtain ⟨hfeed, hslash, hquote⟩ := by simpa [not_or] using hplain
      exact .inl ⟨_, _, hquote, hslash, hfeed, rfl, (Option.some.inj h).symm⟩
  · cases h

/-! ## Comments and blanks -/

theorem unclosed_nil : Unclosed [] := by
  simp [Unclosed, List.infix_cons_iff]

theorem unclosed_cons {c : Char} {body : List Char} :
    Unclosed (c :: body) ↔ ¬(c = '*' ∧ body.head? = some '/') ∧ Unclosed body := by
  unfold Unclosed
  rw [List.cons_append, List.infix_cons_iff, not_or, List.cons_prefix_cons]
  cases body <;> simp [eq_comm]

theorem commentLength_append {body : List Char} (h : Unclosed body) (rest : List Char) :
    commentLength (body ++ '*' :: '/' :: rest) = some (body.length + 2) := by
  induction body with
  | nil => rfl
  | cons c body ih =>
    obtain ⟨hopen, hbody⟩ := unclosed_cons.mp h
    rw [List.cons_append, commentLength.eq_def]
    split
    case h_1 => simp_all
    case h_2 heq =>
      cases body <;> simp_all
    case h_3 heq =>
      obtain ⟨rfl, rfl⟩ := List.cons.inj heq
      rw [ih hbody]
      simp

theorem unclosed_of_commentLength {cs : List Char} {length : Nat}
    (h : commentLength cs = some length) :
    ∃ body rest, cs = body ++ '*' :: '/' :: rest ∧ length = body.length + 2 ∧ Unclosed body := by
  fun_induction commentLength cs generalizing length with
  | case1 => cases h
  | case2 rest =>
    obtain rfl := Option.some.inj h
    exact ⟨[], rest, rfl, rfl, unclosed_nil⟩
  | case3 c rest hopen ih =>
    obtain ⟨length, hrest, rfl⟩ := Option.map_eq_some_iff.mp h
    obtain ⟨body, rest, rfl, rfl, hbody⟩ := ih hrest
    refine ⟨c :: body, rest, rfl, by simp, unclosed_cons.mpr ⟨?_, hbody⟩⟩
    rintro ⟨rfl, hhead⟩
    obtain ⟨body, rfl⟩ := List.head?_eq_some_iff.mp hhead
    exact hopen _ rfl rfl

theorem lineComment_of {mark : List Char} (rest : List Char)
    (hmark : mark = ['#'] ∨ mark = ['/', '/']) :
    Reading.Of ⟨mark.length + lineLength rest, .skipped⟩ (mark ++ rest) := by
  have hline : ∀ d ∈ rest.takeWhile (· != '\n'), d ≠ '\n' := by
    intro d hd
    simpa using List.mem_takeWhile_imp hd
  refine ⟨mark ++ rest.takeWhile (· != '\n'), rest.dropWhile (· != '\n'), ?_, ?_,
    .lineComment hmark hline⟩
  · rw [List.append_assoc, List.takeWhile_append_dropWhile]
  · simp [lineLength]

theorem comment?_of {cs : List Char} {r : Reading} (h : comment? cs = some r) : r.Of cs := by
  unfold comment? at h
  split at h
  case h_1 rest =>
    obtain rfl := Option.some.inj h
    exact lineComment_of rest (.inl rfl)
  case h_2 rest =>
    obtain rfl := Option.some.inj h
    exact lineComment_of rest (.inr rfl)
  case h_3 =>
    obtain ⟨length, hlength, rfl⟩ := Option.map_eq_some_iff.mp h
    obtain ⟨body, rest, rfl, rfl, hbody⟩ := unclosed_of_commentLength hlength
    exact ⟨_, rest, by simp, by simp, .blockComment hbody⟩
  case h_4 => cases h

theorem comment?_eq_none {cs : List Char} (hhash : ∀ line, cs ≠ '#' :: line)
    (hslash : ∀ line, cs ≠ '/' :: '/' :: line) (hopen : ∀ body, cs ≠ '/' :: '*' :: body) :
    comment? cs = none := by
  fun_cases comment? cs with
  | case1 line => exact absurd rfl (hhash line)
  | case2 line => exact absurd rfl (hslash line)
  | case3 body => exact absurd rfl (hopen body)
  | case4 => rfl

theorem comment?_line {mark body : List Char} (rest : List Char)
    (hmark : mark = ['#'] ∨ mark = ['/', '/']) (hbody : ∀ d ∈ body, d ≠ '\n') :
    ∃ r, comment? (mark ++ body ++ rest) = some r ∧ (mark ++ body).length ≤ r.length := by
  have hlength := length_le_takeWhile (p := (· != '\n')) rest (by simpa using hbody)
  obtain rfl | rfl := hmark
  all_goals simp only [List.cons_append, List.nil_append, comment?, lineLength, List.length_cons]
  all_goals refine ⟨_, rfl, ?_⟩
  all_goals simp only
  all_goals omega

theorem comment?_block {body : List Char} (h : Unclosed body) (rest : List Char) :
    comment? ('/' :: '*' :: body ++ ['*', '/'] ++ rest) =
      some ⟨('/' :: '*' :: body ++ ['*', '/']).length, .skipped⟩ := by
  simp [comment?, commentLength_append h]

theorem spaces?_of {cs : List Char} {r : Reading} (h : spaces? cs = some r) : r.Of cs := by
  simp only [spaces?] at h
  split at h
  case isTrue => cases h
  case isFalse hne =>
    obtain rfl := Option.some.inj h
    refine ⟨cs.takeWhile isSpace, cs.dropWhile isSpace, ?_, rfl, .blanks (by simpa using hne) ?_⟩
    · rw [List.takeWhile_append_dropWhile]
    · exact fun c hc => List.mem_takeWhile_imp hc

theorem spaces?_append {text : List Char} (rest : List Char) (hne : text ≠ [])
    (htext : ∀ c ∈ text, isSpace c = true) :
    ∃ r, spaces? (text ++ rest) = some r ∧ text.length ≤ r.length := by
  have hlength := length_le_takeWhile rest htext
  have hblank : ((text ++ rest).takeWhile isSpace).isEmpty = false := by
    rw [List.takeWhile_append_of_pos htext]
    simp [hne]
  simp only [spaces?, hblank, Bool.false_eq_true, if_false]
  exact ⟨_, rfl, hlength⟩

/-! ## All readings -/

theorem mem_readings {cs : List Char} {r : Reading} :
    r ∈ readings cs ↔ (∃ s ∈ vocabulary, s.reading? cs = some r) ∨ name? cs = some r ∨
      number? cs = some r ∨ string? cs = some r ∨ character? cs = some r ∨
      comment? cs = some r ∨ spaces? cs = some r := by
  simp [readings, List.mem_filterMap]

/-- Every reading is one of a text that has a form. -/
theorem of_mem_readings {cs : List Char} {r : Reading} (h : r ∈ readings cs) : r.Of cs := by
  rcases mem_readings.mp h with ⟨s, hs, h⟩ | h | h | h | h | h | h
  · obtain ⟨text, rest, rfl, htext, rfl⟩ := Spelling.reading?_eq_some h
    exact Denotes.of_append (.spelling hs htext) rest
  · exact name?_of h
  · exact number?_of h
  · exact string?_of h
  · exact character?_of h
  · exact comment?_of h
  · exact spaces?_of h

/-- No text that has a form is longer than all readings of what it begins. -/
theorem Denotes.exists_reading {text : List Char} {m : Meaning} (h : Denotes text m)
    (rest : List Char) : ∃ r ∈ readings (text ++ rest), text.length ≤ r.length := by
  simp only [mem_readings]
  cases h with
  | @spelling s text hs htext =>
    exact ⟨_, .inl ⟨s, hs, s.reading?_append htext rest⟩, Nat.le_refl _⟩
  | name hstart hname =>
    obtain ⟨r, hr, hlength⟩ := name?_append rest hstart hname
    exact ⟨r, .inr (.inl hr), hlength⟩
  | integer hne hdigits | tooLarge hne hdigits =>
    obtain ⟨r, hr, hlength⟩ := number?_digits rest hne hdigits
    exact ⟨r, .inr (.inr (.inl hr)), hlength⟩
  | real hne hwhole hfraction_ne hfraction =>
    obtain ⟨r, hr, hlength⟩ := number?_real rest hne hwhole hfraction_ne hfraction
    exact ⟨r, .inr (.inr (.inl hr)), hlength⟩
  | string hraw =>
    have hr := string?_append hraw rest
    exact ⟨_, .inr (.inr (.inr (.inl hr))), Nat.le_refl _⟩
  | character hquote hslash hfeed =>
    have hr := character?_plain rest hquote hslash hfeed
    exact ⟨_, .inr (.inr (.inr (.inr (.inl hr)))), Nat.le_refl _⟩
  | escapedCharacter hfeed =>
    have hr := character?_escaped rest hfeed
    exact ⟨_, .inr (.inr (.inr (.inr (.inl hr)))), Nat.le_refl _⟩
  | lineComment hmark hbody =>
    obtain ⟨r, hr, hlength⟩ := comment?_line rest hmark hbody
    exact ⟨r, .inr (.inr (.inr (.inr (.inr (.inl hr))))), hlength⟩
  | blockComment hbody =>
    have hr := comment?_block hbody rest
    exact ⟨_, .inr (.inr (.inr (.inr (.inr (.inl hr))))), Nat.le_refl _⟩
  | blanks hne htext =>
    obtain ⟨r, hr, hlength⟩ := spaces?_append rest hne htext
    exact ⟨r, .inr (.inr (.inr (.inr (.inr (.inr hr))))), hlength⟩

theorem Denotes.ne_nil {text : List Char} {m : Meaning} (h : Denotes text m) : text ≠ [] := by
  cases h with
  | @spelling s text hs htext =>
    rintro rfl
    exact vocabulary_text_ne_nil s hs htext.symm
  | lineComment hmark => obtain rfl | rfl := hmark <;> simp
  | integer hne | tooLarge hne | blanks hne => exact hne
  | _ => simp

end Pseudocode
