import Pseudocode.Proofs.Lexing.LineMark
import Pseudocode.Proofs.Lexing.ReadingCase
import Pseudocode.Token.Join

/-! # Letter case

A source may be written in capitals or in small letters. Apart from the spelling of names nothing
that is read depends on it: not where a token ends, not its place, not what is refused.

* `Recased`: a source in other letters, piece by piece.
* `recased_of_kept`: every source can be taken as one, where what keeps its case stands unchanged.
* `tokenize_recased`: what is read of it. -/

namespace Pseudocode
set_option autoImplicit false

/-! ## Sources in other letters -/

/-- A source in other letters. Piece by piece, the letters are the same up to their case, and where
case counts they are the same. What follows the first place where nothing can be read is in no
piece, and may be in any letters. -/
inductive Recased : List Char → List Char → Prop where
  | unread {cs cs' : List Char} :
      (∀ r, longest (readings cs) = some r → ∃ cause, r.meaning = .refused cause) →
      SameLetters cs cs' → Recased cs cs'
  | piece {text text' rest rest' : List Char} {meaning : Meaning} :
      longest (readings (text ++ rest)) = some ⟨text.length, meaning⟩ →
      SameLetters text text' → (CaseCounts text meaning → text' = text) →
      Recased rest rest' → Recased (text ++ rest) (text' ++ rest')

theorem Recased.letters {cs cs' : List Char} (h : Recased cs cs') : SameLetters cs cs' := by
  induction h with
  | unread _ hletters => exact hletters
  | piece _ htext _ _ ih => exact htext.append ih

/-- Every source has such pieces: it is enough that the letters are the same up to their case and
that the pieces it is cut into stand unchanged where case counts. -/
theorem recased_of_kept {before cs cs' : List Char} (h : SameLetters cs cs')
    (hkept : ∀ (pieces : List Piece) (p : Piece) (after : List Char),
      Cut before (pieces ++ [p]) cs after → CaseCounts p.text p.meaning →
        p.text <+: cs'.drop (pieces.flatMap Piece.text).length) :
    Recased cs cs' := by
  induction hlength : cs.length using Nat.strong_induction_on generalizing before cs cs' with
  | _ length ih =>
  subst hlength
  cases hlongest : longest (readings cs) with
  | none =>
    refine .unread (fun r hr => ?_) h
    rw [hlongest] at hr
    cases hr
  | some r =>
    obtain ⟨text, rest, rfl, hlength, hforemost⟩ := foremost_of_longest hlongest
    obtain ⟨text', rest', rfl, htext, hrest⟩ := h.of_append
    obtain ⟨length, meaning⟩ := r
    obtain rfl : length = text.length := hlength
    have hpiece (p : Piece) (hp : p.text = text) (hmeaning : p.meaning = meaning)
        (hspan : p.span = Span.after before) : Recased (text ++ rest) (text' ++ rest') := by
      subst hp hmeaning
      have hbetween : p.Between before rest := ⟨hforemost, hspan⟩
      have hpos := List.length_pos_iff.2 hforemost.denotes.ne_nil
      refine .piece hlongest htext (fun hcase => ?_) ?_
      · have hfirst : Cut before ([] ++ [p]) (p.text ++ rest) rest := .piece hbetween .done
        have hsame : p.text <+: text' ++ rest' := hkept [] p rest hfirst hcase
        have htake := List.prefix_iff_eq_take.1 hsame
        rwa [htext.length_eq, List.take_left, eq_comm] at htake
      · -- the pieces of the rest are pieces of the whole, behind the first one
        have hlater (pieces : List Piece) (q : Piece) (after : List Char)
            (hcut : Cut (before ++ p.text) (pieces ++ [q]) rest after)
            (hcase : CaseCounts q.text q.meaning) :
            q.text <+: rest'.drop (pieces.flatMap Piece.text).length := by
          have hplace := hkept (p :: pieces) q after (.piece hbetween hcut) hcase
          rwa [List.flatMap_cons, List.length_append, htext.length_eq,
            List.drop_length_add_append] at hplace
        exact ih rest.length (by simp; omega) hrest hlater rfl
    cases meaning with
    | refused cause =>
      refine .unread (fun r hr => ⟨cause, ?_⟩) h
      rw [hlongest] at hr
      obtain rfl := Option.some.inj hr
      rfl
    | token token => exact hpiece ⟨text, some token, Span.after before⟩ rfl rfl rfl
    | skipped => exact hpiece ⟨text, none, Span.after before⟩ rfl rfl rfl

structure Lexeme.Recased (lexeme lexeme' : Lexeme) : Prop where
  span : lexeme.span = lexeme'.span
  token : lexeme.token.Recased lexeme'.token

def Piece.Recased (p p' : Piece) : Prop :=
  Option.Rel Lexeme.Recased p.lexeme? p'.lexeme?

/-- Two outcomes of reading: rows that are related, or the same error. -/
inductive ReadAlike {α : Type} (related : α → α → Prop) :
    Except LexError (List α) → Except LexError (List α) → Prop where
  | ok {row row' : List α} : List.Forall₂ related row row' → ReadAlike related (.ok row) (.ok row')
  | error {error : LexError} : ReadAlike related (.error error) (.error error)

theorem ReadAlike.cons {p p' : Piece} {result result' : Except LexError (List Piece)}
    (hp : p.Recased p') (h : ReadAlike Piece.Recased result result') :
    ReadAlike Piece.Recased (result.map fun pieces => p :: pieces)
      (result'.map fun pieces => p' :: pieces) := by
  cases h with
  | ok hpieces => exact .ok (.cons hp hpieces)
  | error => exact .error

theorem piecesFrom_refused {cs : List Char} {length : Nat} {cause : LexCause} (hne : cs ≠ [])
    (h : longest (readings cs) = some ⟨length, .refused cause⟩) (span : Span) :
    piecesFrom span 0 cs = .error ⟨cause, span⟩ := by
  obtain ⟨c, cs, rfl⟩ := List.exists_cons_of_ne_nil hne
  simp only [piecesFrom, h]

theorem piecesFrom_unread {cs cs' : List Char} (h : SameLetters cs cs')
    (hunread : ∀ r, longest (readings cs) = some r → ∃ cause, r.meaning = .refused cause)
    (span : Span) : ReadAlike Piece.Recased (piecesFrom span 0 cs) (piecesFrom span 0 cs') := by
  have hrel := longest_recased h fun r hr hcase => by
    obtain ⟨cause, hcause⟩ := hunread r hr
    rw [hcause] at hcase
    exact hcase.elim
  cases h with
  | nil => exact .ok .nil
  | @cons c d cs cs' hcd hrest =>
    cases hlongest : longest (readings (c :: cs)) with
    | none =>
      have hc : c.isAlpha = false := by
        by_contra halpha
        have hstart : isNameStart c = true := by simp [isNameStart, Bool.of_not_eq_false halpha]
        obtain ⟨_, _, hread, -⟩ := longest_of_letter cs hstart
        rw [hlongest] at hread
        cases hread
      obtain rfl := eq_of_not_alpha hcd hc
      have hlongest' : longest (readings (c :: cs')) = none := by
        rw [hlongest] at hrel
        generalize longest (readings (c :: cs')) = best at hrel ⊢
        cases hrel
        rfl
      simp only [piecesFrom, hlongest, hlongest']
      exact .error
    | some r =>
      obtain ⟨cause, hcause⟩ := hunread r hlongest
      obtain ⟨length, meaning⟩ := r
      obtain rfl : meaning = .refused cause := hcause
      have hlongest' : longest (readings (d :: cs')) = some ⟨length, .refused cause⟩ := by
        rw [hlongest] at hrel
        generalize longest (readings (d :: cs')) = best at hrel ⊢
        cases hrel with
        | @some _ r' hr =>
          obtain ⟨length', meaning'⟩ := r'
          obtain ⟨rfl, hmeaning⟩ : length = length' ∧ _ := ⟨hr.length, hr.meaning⟩
          cases hmeaning
          rfl
      rw [piecesFrom_refused (by simp) hlongest, piecesFrom_refused (by simp) hlongest']
      exact .error

theorem piecesFrom_recased {cs cs' : List Char} (h : Recased cs cs') (span : Span) :
    ReadAlike Piece.Recased (piecesFrom span 0 cs) (piecesFrom span 0 cs') := by
  induction h generalizing span with
  | unread hunread hletters => exact piecesFrom_unread hletters hunread span
  | @piece text text' rest rest' meaning hlongest htext hkept hrest ih =>
    have hne : text ≠ [] := by
      rintro rfl
      obtain ⟨other, _, -, hlength, hforemost⟩ := foremost_of_longest hlongest
      exact hforemost.denotes.ne_nil (List.length_eq_zero_iff.1 hlength.symm)
    have hne' : text' ≠ [] := fun hnil => hne (by simpa [hnil] using htext.length_eq)
    have hrel := longest_recased (htext.append hrest.letters) fun r hr hcase => by
      rw [hlongest] at hr
      obtain rfl := Option.some.inj hr
      rw [List.take_left] at hcase ⊢
      rw [htext.length_eq, List.take_left, hkept hcase]
    have hfollow := ih (text.foldl Span.next span)
    have hlongest' : ∃ meaning', meaning.Recased meaning' ∧
        longest (readings (text' ++ rest')) = some ⟨text'.length, meaning'⟩ := by
      rw [hlongest] at hrel
      generalize longest (readings (text' ++ rest')) = best at hrel ⊢
      cases hrel with
      | @some _ r' hr =>
        obtain ⟨length', meaning'⟩ := r'
        obtain rfl : text.length = length' := hr.length
        exact ⟨meaning', hr.meaning, by rw [htext.length_eq]⟩
    obtain ⟨meaning', hmeaning, hlongest'⟩ := hlongest'
    cases hmeaning with
    | refused =>
      rw [piecesFrom_refused (by simp [hne]) hlongest,
        piecesFrom_refused (by simp [hne']) hlongest']
      exact .error
    | skipped =>
      have hpiece := piecesFrom_piece (p := ⟨text, none, span⟩) hne hlongest
      have hpiece' := piecesFrom_piece (p := ⟨text', none, span⟩) hne' hlongest'
      simp only [← htext.foldl_next] at hpiece'
      rw [hpiece, hpiece']
      exact hfollow.cons .none
    | token htoken =>
      have hpiece := piecesFrom_piece (p := ⟨text, some _, span⟩) hne hlongest
      have hpiece' := piecesFrom_piece (p := ⟨text', some _, span⟩) hne' hlongest'
      simp only [← htext.foldl_next] at hpiece'
      rw [hpiece, hpiece']
      exact hfollow.cons (.some ⟨rfl, htoken⟩)

/-! ## Keywords of several words -/

theorem sameAsciiWord_recased {name name' : String}
    (h : Text.sameAsciiWord name name' = true) (word : String) :
    Text.sameAsciiWord name word = Text.sameAsciiWord name' word := by
  have hlower : name.toList.map Char.toLower = name'.toList.map Char.toLower := by
    simpa [Text.sameAsciiWord] using h
  rw [Text.sameAsciiWord, Text.sameAsciiWord, hlower]

theorem join?_recased {first first' second second' : Token} (hfirst : first.Recased first')
    (hsecond : second.Recased second') : join? first second = join? first' second' := by
  cases hfirst with
  | same =>
    cases hsecond with
    | same => rfl
    | name h =>
      cases first with
      | ident => simp only [join?, sameAsciiWord_recased h]
      | keyword word => cases word <;> rfl
      | _ => rfl
  | name h =>
    cases hsecond with
    | same =>
      cases second with
      | ident => simp only [join?, sameAsciiWord_recased h]
      | _ => rfl
    | name h' => simp only [join?, sameAsciiWord_recased h, sameAsciiWord_recased h']

theorem push_recased {before before' : List Lexeme} {lexeme lexeme' : Lexeme}
    (hbefore : List.Forall₂ Lexeme.Recased before before') (h : lexeme.Recased lexeme') :
    List.Forall₂ Lexeme.Recased (push before lexeme) (push before' lexeme') := by
  induction hbefore generalizing lexeme lexeme' with
  | nil => exact .cons h .nil
  | @cons last last' before before' hlast hbefore ih =>
    rw [push, push, join?_recased hlast.token h.token]
    split
    · exact ih ⟨hlast.span, .same⟩
    · exact .cons h (.cons hlast hbefore)

theorem joinWords_recased {lexemes lexemes' : List Lexeme}
    (h : List.Forall₂ Lexeme.Recased lexemes lexemes') :
    List.Forall₂ Lexeme.Recased (joinWords lexemes) (joinWords lexemes') := by
  have hpushed {before before' : List Lexeme}
      (hbefore : List.Forall₂ Lexeme.Recased before before') :
      List.Forall₂ Lexeme.Recased (lexemes.foldl push before) (lexemes'.foldl push before') := by
    induction h generalizing before before' with
    | nil => exact hbefore
    | cons hlexeme _ ih => exact ih (push_recased hbefore hlexeme)
  exact List.rel_reverse (hpushed .nil)

/-! ## What is read -/

/-- Keywords ignore the case of ASCII letters: a source in other letters is read as the same tokens
at the same places but for the letters of names, or it is refused for the same reason at the same
place. -/
theorem tokenize_recased {source source' : String} (h : Recased source.toList source'.toList) :
    ReadAlike Lexeme.Recased (tokenize source) (tokenize source') := by
  have hpieces := piecesFrom_recased h .start
  rw [tokenize, tokenize, pieces_eq_piecesFrom, pieces_eq_piecesFrom]
  generalize piecesFrom .start 0 source.toList = result at hpieces ⊢
  generalize piecesFrom .start 0 source'.toList = result' at hpieces ⊢
  cases hpieces with
  | ok hrow => exact .ok (joinWords_recased (List.rel_filterMap (fun _ _ hp => hp) hrow))
  | error => exact .error

/-- A keyword and a name in other letters; the character between quotes stays. -/
theorem tokenize_recased_fin : Recased "Fin'a'x".toList "fIN'a'X".toList ∧
    ReadAlike Lexeme.Recased (tokenize "Fin'a'x") (tokenize "fIN'a'X") := by
  have hend : Recased [] [] := .unread (fun r hr => nomatch hr) .nil
  have hx : Recased (['x'] ++ []) (['X'] ++ []) :=
    .piece (by rfl) (.cons (by rfl) .nil) (by simp [CaseCounts]) hend
  have ha : Recased (['\'', 'a', '\''] ++ ['x']) (['\'', 'a', '\''] ++ ['X']) :=
    .piece (by rfl) (.refl _) (fun _ => rfl) hx
  have hfin : Recased (['F', 'i', 'n'] ++ ['\'', 'a', '\'', 'x'])
      (['f', 'I', 'N'] ++ ['\'', 'a', '\'', 'X']) :=
    .piece (by rfl) (.cons (by rfl) (.cons (by rfl) (.cons (by rfl) .nil)))
      (by simp [CaseCounts]) ha
  exact ⟨hfin, tokenize_recased hfin⟩

end Pseudocode
