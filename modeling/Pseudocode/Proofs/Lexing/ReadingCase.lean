import Mathlib.Data.List.Forall2
import Pseudocode.Proofs.Lexing.SameLetters

/-! # Readings in other letters

Words are recognised in capitals and in small letters. Two things keep their case, what stands
between quotes and the one letter `A`, which bounds a loop as a capital and is a name otherwise. At
a quote there is one way to read; elsewhere the readings of two texts correspond, those apart that
are as short as that letter.

* `Reading.Recased`: two readings that are the same but for the letters of a name.
* `readings_recased`: all readings of two texts.
* `longest_recased`: the longest ones. -/

namespace Pseudocode
set_option autoImplicit false

/-! ## Readings -/

/-- Two tokens that are the same, or names in different letters. -/
inductive Token.Recased : Token → Token → Prop where
  | same {token : Token} : Recased token token
  | name {name name' : String} : Text.sameAsciiWord name name' = true →
      Recased (.ident name) (.ident name')

inductive Meaning.Recased : Meaning → Meaning → Prop where
  | token {token token' : Token} : token.Recased token' → Recased (.token token) (.token token')
  | skipped : Recased .skipped .skipped
  | refused {cause : LexCause} : Recased (.refused cause) (.refused cause)

theorem Meaning.Recased.same {meaning : Meaning} : meaning.Recased meaning := by
  cases meaning with
  | token => exact .token .same
  | skipped => exact .skipped
  | refused => exact .refused

structure Reading.Recased (r r' : Reading) : Prop where
  length : r.length = r'.length
  meaning : r.meaning.Recased r'.meaning

theorem Reading.Recased.same {r : Reading} : r.Recased r := ⟨rfl, .same⟩

theorem rel_same {o : Option Reading} : Option.Rel Reading.Recased o o := by
  cases o with
  | none => exact .none
  | some => exact .some .same

/-- The `A` that bounds a loop is the one spelling in letters that are not folded. -/
theorem exact_no_letters {s : Spelling} (hs : s ∈ vocabulary) (hexact : s.exact = true) :
    (∀ c ∈ s.text, c.isAlpha = false) ∨ s.text = ['A'] := by
  have hall : vocabulary.all (fun s => !s.exact || s.text == ['A'] || s.text.all (!·.isAlpha)) =
      true := by decide +kernel
  have hspelling := List.all_eq_true.1 hall s hs
  simp only [hexact, Bool.not_true, Bool.false_or, Bool.or_eq_true, beq_iff_eq, List.all_eq_true,
    Bool.not_eq_true'] at hspelling
  exact hspelling.symm

section Readings
variable {cs cs' : List Char} (h : SameLetters cs cs')
include h

/-! ### Names, numbers, comments and blanks -/

theorem name?_recased : Option.Rel Reading.Recased (name? cs) (name? cs') := by
  cases h with
  | nil => exact .none
  | @cons c d cs cs' hc hrest =>
    have htake := hrest.takeWhile ignoresCase_nameRest
    rw [name?, name?, ignoresCase_nameStart c d hc]
    split
    · refine .some ⟨?_, .token (.name ?_)⟩
      · exact congrArg Nat.succ htake.length_eq
      · exact SameLetters.sameAsciiWord (.cons hc htake)
    · exact .none

theorem fractionDigits_recased : fractionDigits cs' = fractionDigits cs := by
  cases h with
  | nil => rfl
  | @cons c d cs cs' hc hrest =>
    by_cases hpoint : c = '.'
    · subst hpoint
      obtain rfl := eq_of_not_alpha hc rfl
      exact SameLetters.digits hrest
    · have hpoint' : d ≠ '.' := ne_of_ne hc rfl hpoint
      simp [fractionDigits, hpoint, hpoint']

theorem number?_recased : number? cs' = number? cs := by
  rw [number?_eq, number?_eq, h.digits,
    fractionDigits_recased (h.dropWhile ignoresCase_digit)]

theorem commentLength_recased : commentLength cs' = commentLength cs := by
  fun_induction commentLength cs generalizing cs' with
  | case1 => cases h; rfl
  | case2 rest =>
    obtain ⟨_, rfl, hslash⟩ := h.cons_mark rfl
    obtain ⟨_, rfl, -⟩ := hslash.cons_mark rfl
    rfl
  | case3 c rest hclose ih =>
    cases h with
    | @cons _ d _ rest' hc hrest =>
      rw [commentLength.eq_def]
      split
      · next heq => cases heq
      · next heq =>
        obtain ⟨rfl, rfl⟩ := List.cons.inj heq
        obtain ⟨after, rfl, -⟩ := hrest.symm.cons_mark rfl
        exact absurd rfl (hclose after (eq_of_not_alpha hc.symm rfl).symm)
      · next heq =>
        obtain ⟨rfl, rfl⟩ := List.cons.inj heq
        rw [ih hrest]

theorem comment?_recased : comment? cs' = comment? cs := by
  have hlength {line line' : List Char} (hline : SameLetters line line') :
      lineLength line' = lineLength line := (hline.takeWhile ignoresCase_line).length_eq.symm
  fun_cases comment? cs with
  | case1 line =>
    obtain ⟨line', rfl, hline⟩ := h.cons_mark rfl
    rw [comment?, hlength hline]
  | case2 line =>
    obtain ⟨_, rfl, hslash⟩ := h.cons_mark rfl
    obtain ⟨line', rfl, hline⟩ := hslash.cons_mark rfl
    rw [comment?, hlength hline]
  | case3 body =>
    obtain ⟨_, rfl, hstar⟩ := h.cons_mark rfl
    obtain ⟨body', rfl, hbody⟩ := hstar.cons_mark rfl
    rw [comment?, commentLength_recased hbody]
  | case4 _ hhash hslash hopen =>
    apply comment?_eq_none
    · rintro line' rfl
      obtain ⟨line, rfl, -⟩ := h.symm.cons_mark rfl
      exact absurd rfl (hhash line)
    · rintro line' rfl
      obtain ⟨_, rfl, hline⟩ := h.symm.cons_mark rfl
      obtain ⟨line, rfl, -⟩ := hline.cons_mark rfl
      exact absurd rfl (hslash line)
    · rintro body' rfl
      obtain ⟨_, rfl, hbody⟩ := h.symm.cons_mark rfl
      obtain ⟨body, rfl, -⟩ := hbody.cons_mark rfl
      exact absurd rfl (hopen body)

theorem spaces?_recased : spaces? cs' = spaces? cs := by
  have hlength := (h.takeWhile ignoresCase_space).length_eq
  simp only [spaces?, List.isEmpty_iff_length_eq_zero, hlength]

/-! ### Fixed spellings -/

/-- It counts only where both texts begin with it, or where it is too short to count. -/
theorem spelling_recased {s : Spelling} (hs : s ∈ vocabulary) {n : Nat}
    (hword : (cs.head? = some 'A' ↔ cs'.head? = some 'A') ∨ 2 ≤ n) :
    (s.reading? cs').filter (n ≤ ·.length) = (s.reading? cs).filter (n ≤ ·.length) := by
  by_cases hstands : s.stands cs' = s.stands cs
  · simp only [Spelling.reading?, hstands]
  · cases hexact : s.exact with
    | false =>
      refine absurd ?_ hstands
      rw [Bool.eq_iff_iff, s.stands_iff_prefix, s.stands_iff_prefix, Spelling.seen_of_word hexact,
        h.map ignoresCase_foldCase]
    | true =>
      rcases exact_no_letters hs hexact with hletters | htext
      · refine absurd ?_ hstands
        rw [Bool.eq_iff_iff, s.stands_iff_prefix, s.stands_iff_prefix,
          Spelling.seen_of_exact hexact, List.map_id, List.map_id]
        exact ⟨h.symm.prefix_of_no_letters hletters, h.prefix_of_no_letters hletters⟩
      · have hlong : 2 ≤ n := by
          refine hword.resolve_left fun hhead => hstands ?_
          rw [Bool.eq_iff_iff, s.stands_iff_prefix, s.stands_iff_prefix,
            Spelling.seen_of_exact hexact, List.map_id, List.map_id, htext]
          cases h with
          | nil => rfl
          | cons => simpa [List.cons_prefix_cons, eq_comm] using hhead.symm
        have hshort : ∀ ds, (s.reading? ds).filter (n ≤ ·.length) = none := by
          intro ds
          unfold Spelling.reading?
          split
          · simp [htext]
            omega
          · rfl
        rw [hshort, hshort]

/-! ### Literals between quotes -/

theorem stringBody_recased (hnone : stringBody cs = none) : stringBody cs' = none := by
  fun_induction stringBody cs generalizing cs' with
  | case1 => cases h; rfl
  | case2 => cases hnone
  | case3 rest =>
    obtain ⟨_, rfl, -⟩ := h.cons_mark rfl
    rfl
  | case4 =>
    obtain ⟨_, rfl, hend⟩ := h.cons_mark rfl
    cases hend
    rfl
  | case5 rest =>
    obtain ⟨_, rfl, hfeed⟩ := h.cons_mark rfl
    obtain ⟨_, rfl, -⟩ := hfeed.cons_mark rfl
    rfl
  | case6 c rest hfeed ih =>
    obtain ⟨_, rfl, hescaped⟩ := h.cons_mark rfl
    cases hescaped with
    | @cons _ d _ rest' hc hrest =>
      have hbody := ih hrest (by simpa using hnone)
      simp [stringBody, hbody]
  | case7 c rest hquote hfeed hlast hslash ih =>
    cases h with
    | @cons _ d _ rest' hc hrest =>
      have hbody := ih hrest (by simpa using hnone)
      have hplain : c ≠ '\\' := fun heq => by
        cases rest with
        | nil => exact hlast heq rfl
        | cons => exact hslash _ _ heq rfl
      have hquote' : d ≠ '"' := ne_of_ne hc rfl hquote
      have hfeed' : d ≠ '\n' := ne_of_ne hc rfl hfeed
      have hplain' : d ≠ '\\' := ne_of_ne hc rfl hplain
      rw [stringBody.eq_def]
      split <;> simp_all

theorem string?_recased (hnone : string? cs = none) : string? cs' = none := by
  unfold string? at hnone ⊢
  split
  · next rest' =>
    obtain ⟨rest, rfl, hrest⟩ := h.symm.cons_mark rfl
    have hbody := stringBody_recased hrest.symm (by simpa using hnone)
    rw [hbody]
    rfl
  · rfl

theorem character?_recased (hnone : character? cs = none) : character? cs' = none := by
  cases hread : character? cs' with
  | none => rfl
  | some r =>
    rcases of_character? hread with ⟨c, rest', hquote, hslash, hfeed, rfl, -⟩ |
      ⟨c, rest', hfeed, rfl, -⟩
    · obtain ⟨_, rfl, hbody⟩ := h.symm.cons_mark rfl
      cases hbody with
      | @cons _ d _ _ hc hend =>
        obtain ⟨rest, rfl, -⟩ := hend.cons_mark rfl
        have hplain : character? ('\'' :: d :: '\'' :: rest) = _ :=
          character?_plain rest (ne_of_ne hc rfl hquote) (ne_of_ne hc rfl hslash)
            (ne_of_ne hc rfl hfeed)
        rw [hnone] at hplain
        cases hplain
    · obtain ⟨_, rfl, hslash⟩ := h.symm.cons_mark rfl
      obtain ⟨_, rfl, hbody⟩ := hslash.cons_mark rfl
      cases hbody with
      | @cons _ d _ _ hc hend =>
        obtain ⟨rest, rfl, -⟩ := hend.cons_mark rfl
        have hescaped : character? ('\'' :: '\\' :: d :: '\'' :: rest) = _ :=
          character?_escaped rest (ne_of_ne hc rfl hfeed)
        rw [hnone] at hescaped
        cases hescaped

/-! ### All readings -/

/-- Texts that open no literal have the same readings but for names, from the length on where `A`
does not matter. -/
theorem readings_recased {n : Nat}
    (hword : (cs.head? = some 'A' ↔ cs'.head? = some 'A') ∨ 2 ≤ n)
    (hquote : cs.head? ≠ some '"') (hmark : cs.head? ≠ some '\'') :
    List.Forall₂ Reading.Recased ((readings cs).filter (n ≤ ·.length))
      ((readings cs').filter (n ≤ ·.length)) := by
  have hspellings : (vocabulary.filterMap (·.reading? cs')).filter (n ≤ ·.length) =
      (vocabulary.filterMap (·.reading? cs)).filter (n ≤ ·.length) := by
    rw [List.filter_filterMap, List.filter_filterMap]
    exact List.filterMap_congr fun s hs => spelling_recased h hs hword
  have hstring : string? cs = none := by
    unfold string?
    split
    · exact absurd rfl hquote
    · rfl
  have hcharacter : character? cs = none := by
    unfold character?
    split
    · exact absurd rfl hmark
    · exact absurd rfl hmark
    · rfl
  have hothers : List.Forall₂ Reading.Recased
      ([name?, number?, string?, character?, comment?, spaces?].filterMap (· cs))
      ([name?, number?, string?, character?, comment?, spaces?].filterMap (· cs')) := by
    refine List.rel_filterMap (R := fun f g => Option.Rel Reading.Recased (f cs) (g cs'))
      (fun _ _ hfg => hfg) ?_
    refine .cons (name?_recased h) (.cons ?_ (.cons ?_ (.cons ?_ (.cons ?_ (.cons ?_ .nil)))))
    · rw [number?_recased h]
      exact rel_same
    · rw [hstring, string?_recased h hstring]
      exact .none
    · rw [hcharacter, character?_recased h hcharacter]
      exact .none
    · rw [comment?_recased h]
      exact rel_same
    · rw [spaces?_recased h]
      exact rel_same
  rw [readings, readings, List.filter_append, List.filter_append, hspellings]
  refine List.rel_append (List.forall₂_same.2 fun r _ => .same) ?_
  exact List.rel_filter (fun r r' hr => by simp only [hr.length]) hothers

end Readings

theorem longest_rel {rs rs' : List Reading} (h : List.Forall₂ Reading.Recased rs rs') :
    Option.Rel Reading.Recased (longest rs) (longest rs') := by
  induction h with
  | nil => exact .none
  | @cons r r' rs rs' hr _ ih =>
    rw [longest, longest]
    generalize longest rs = best at ih ⊢
    generalize longest rs' = best' at ih ⊢
    cases ih with
    | none => exact .some hr
    | some hs =>
      simp only [hr.length, hs.length]
      split
      · exact .some hs
      · exact .some hr

/-- Readings that are too short do not matter to the longest one. -/
theorem longest_filter (n : Nat) (rs : List Reading) :
    longest (rs.filter (n ≤ ·.length)) = (longest rs).filter (n ≤ ·.length) := by
  induction rs with
  | nil => rfl
  | cons r rs ih =>
    rw [List.filter_cons, longest]
    cases hbest : longest rs with
    | none =>
      rw [hbest] at ih
      split <;> simp_all [longest, Option.filter_some]
    | some s =>
      rw [hbest, Option.filter_some] at ih
      simp only [decide_eq_true_eq] at ih ⊢
      by_cases hr : n ≤ r.length
      · rw [if_pos hr, longest, ih]
        by_cases hs : n ≤ s.length
        · rw [if_pos hs]
          dsimp only
          split <;> simp [Option.filter_some, hr, hs]
        · have hless : ¬r.length < s.length := by omega
          simp [Option.filter_some, hs, hless, hr]
      · rw [if_neg hr, ih]
        by_cases hs : n ≤ s.length
        · have hless : r.length < s.length := by omega
          simp [Option.filter_some, hless, hs]
        · rw [if_neg hs]
          split <;> simp [Option.filter_some, hr, hs]

/-! ## What keeps its case -/

/-- Whether the letters of a text count as they stand: between quotes, or in the one letter `A`. -/
def CaseCounts (text : List Char) : Meaning → Prop
  | .token (.literal (.string _)) | .token (.literal (.character _)) => True
  | .token _ => text = ['a'] ∨ text = ['A']
  | _ => False

section Kept
variable {cs cs' : List Char} {r : Reading}

theorem string?_kept (h : string? cs = some r)
    (hkept : cs'.take r.length = cs.take r.length) : string? cs' = some r := by
  obtain ⟨raw, content, rest, hraw, rfl, rfl⟩ := of_string? h
  rw [List.take_left] at hkept
  rw [← List.take_append_drop ('"' :: raw ++ ['"']).length cs', hkept]
  exact string?_append hraw _

theorem character?_kept (h : character? cs = some r)
    (hkept : cs'.take r.length = cs.take r.length) : character? cs' = some r := by
  rcases of_character? h with
    ⟨c, rest, hquote, hslash, hfeed, rfl, rfl⟩ | ⟨c, rest, hfeed, rfl, rfl⟩
  · rw [← List.take_append_drop 3 cs', hkept]
    exact character?_plain _ hquote hslash hfeed
  · rw [← List.take_append_drop 4 cs', hkept]
    exact character?_escaped _ hfeed

/-- At a quote there is one way to read, which finds the same where it finds something. -/
theorem longest_quoted {literal? : List Char → Option Reading}
    (hcs : readings cs = (literal? cs).toList) (hcs' : readings cs' = (literal? cs').toList)
    (hnone : literal? cs = none → literal? cs' = none)
    (hkept : ∀ r, literal? cs = some r → literal? cs' = some r) :
    Option.Rel Reading.Recased (longest (readings cs)) (longest (readings cs')) := by
  rw [hcs, hcs']
  cases hread : literal? cs with
  | none =>
    rw [hnone hread]
    exact .none
  | some r =>
    rw [hkept r hread]
    exact .some .same

theorem caseCounts_letter {text : List Char} (h : text = ['a'] ∨ text = ['A']) (token : Token) :
    CaseCounts text (.token token) := by
  unfold CaseCounts
  split <;> simp_all

theorem eq_of_toLower_a {c : Char} (h : c.toLower = 'a') : c = 'a' ∨ c = 'A' := by
  have hnat : c.toLower.toNat = 97 := congrArg Char.toNat h
  rw [toNat_toLower] at hnat
  split at hnat
  · exact .inr (Char.toNat_inj.1 (show c.toNat = 65 by omega))
  · exact .inl (Char.toNat_inj.1 hnat)

/-- A text that begins with a letter is read as a token. -/
theorem longest_of_letter {c : Char} (cs : List Char) (hc : isNameStart c = true) :
    ∃ length token, longest (readings (c :: cs)) = some ⟨length, .token token⟩ ∧ 0 < length := by
  cases hlongest : longest (readings (c :: cs)) with
  | none =>
    have hname : Denotes [c] (.token (.ident (String.ofList [c]))) := .name hc (by simp)
    exact absurd hname (not_denotes_of_longest hlongest (by simp))
  | some r =>
    obtain ⟨text, rest, hsplit, hlength, hforemost⟩ := foremost_of_longest hlongest
    obtain ⟨d, text, rfl⟩ := List.exists_cons_of_ne_nil hforemost.denotes.ne_nil
    obtain ⟨rfl, -⟩ := List.cons.inj hsplit
    obtain ⟨length, meaning⟩ := r
    obtain rfl : length = (c :: text).length := hlength
    rcases hforemost.denotes.of_letter hc with rfl | ⟨s, hs, htext⟩
    · exact ⟨_, _, rfl, by simp⟩
    · have hfixed := hforemost.fixed s hs htext
      exact ⟨_, s.token, by rw [← hfixed], by simp⟩

/-- The longest readings of two texts in different letters are the same but for names, when what
keeps its case is the same. -/
theorem longest_recased (h : SameLetters cs cs')
    (hkept : ∀ r, longest (readings cs) = some r → CaseCounts (cs.take r.length) r.meaning →
      cs'.take r.length = cs.take r.length) :
    Option.Rel Reading.Recased (longest (readings cs)) (longest (readings cs')) := by
  by_cases hquote : cs.head? = some '"'
  · obtain ⟨rest, rfl⟩ := List.head?_eq_some_iff.1 hquote
    obtain ⟨rest', rfl, -⟩ := h.cons_mark rfl
    refine longest_quoted (readings_of_quote rest) (readings_of_quote rest') (string?_recased h)
      fun r hread => string?_kept hread (hkept r ?_ ?_)
    · rw [readings_of_quote, hread]
      rfl
    · obtain ⟨raw, content, _, -, -, rfl⟩ := of_string? hread
      exact trivial
  by_cases hmark : cs.head? = some '\''
  · obtain ⟨rest, rfl⟩ := List.head?_eq_some_iff.1 hmark
    obtain ⟨rest', rfl, -⟩ := h.cons_mark rfl
    refine longest_quoted (readings_of_mark rest) (readings_of_mark rest') (character?_recased h)
      fun r hread => character?_kept hread (hkept r ?_ ?_)
    · rw [readings_of_mark, hread]
      rfl
    · rcases of_character? hread with ⟨c, _, -, -, -, -, rfl⟩ | ⟨c, _, -, -, rfl⟩ <;> exact trivial
  by_cases hword : cs.head? = some 'A' ↔ cs'.head? = some 'A'
  · have hrel := longest_rel (readings_recased (n := 0) h (.inl hword) hquote hmark)
    simpa using hrel
  -- one of the two texts begins with `A` and the other with `a`, and neither ends there
  have hrel := longest_rel (readings_recased (n := 2) h (.inr (Nat.le_refl 2)) hquote hmark)
  rw [longest_filter, longest_filter] at hrel
  cases h with
  | nil => exact absurd Iff.rfl hword
  | @cons c d cs cs' hcd hrest =>
    have hne : d ≠ c := by
      rintro rfl
      exact hword Iff.rfl
    have ha : c = 'a' ∨ c = 'A' := by
      refine eq_of_toLower_a ?_
      by_cases hc : c = 'A'
      · rw [hc]
        rfl
      · have hd : d = 'A' := by simpa [hc] using hword
        rw [hcd, hd]
        rfl
    have hstart : isNameStart c = true := by rcases ha with rfl | rfl <;> rfl
    obtain ⟨length, token, hlongest, hpos⟩ := longest_of_letter cs hstart
    have hlong : 2 ≤ length := by
      by_contra hshort
      obtain rfl : length = 1 := by omega
      have hsame := hkept _ hlongest (caseCounts_letter (by simpa using ha) token)
      exact hne (List.cons.inj hsame).1
    rw [hlongest, Option.filter_some, if_pos (by simpa using hlong)] at hrel
    rw [hlongest]
    cases hbest : longest (readings (d :: cs')) with
    | none =>
      rw [hbest] at hrel
      cases hrel
    | some r =>
      rw [hbest, Option.filter_some] at hrel
      split at hrel
      · exact hrel
      · cases hrel

end Kept

end Pseudocode
