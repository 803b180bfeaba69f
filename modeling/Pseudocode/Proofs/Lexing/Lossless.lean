import Mathlib.Data.List.Forall2
import Pseudocode.Proofs.Lexing.LineMark
import Pseudocode.Token.Join

/-! Nothing of a source is lost and every token knows where it stands. The words that were joined
into one keyword are neighbours, and the keyword keeps the place of the first of them. -/

namespace Pseudocode
set_option autoImplicit false

/-! ## Keywords of several words -/

/-- What a row of tokens spells together: a token spells itself, and two or three words a keyword. -/
inductive Spells : List Token → Token → Prop where
  | itself {token : Token} : Spells [token] token
  | tantQue {first second : String} : Text.sameAsciiWord first "tant" = true →
      Text.sameAsciiWord second "que" = true →
      Spells [.ident first, .ident second] (.keyword .tantQue)
  | finSi : Spells [.keyword .fin, .keyword .si] (.keyword .finSi)
  | finPour : Spells [.keyword .fin, .keyword .pour] (.keyword .finPour)
  | finTantQue : Spells [.keyword .fin, .keyword .tantQue] (.keyword .finTantQue)
  | finTantQueApart {first second : String} : Text.sameAsciiWord first "tant" = true →
      Text.sameAsciiWord second "que" = true →
      Spells [.keyword .fin, .ident first, .ident second] (.keyword .finTantQue)

theorem Spells.join {row row' : List Token} {token token' joined : Token}
    (hrow : Spells row token) (hrow' : Spells row' token')
    (hjoin : join? token token' = some joined) : Spells (row ++ row') joined := by
  unfold join? at hjoin
  split at hjoin
  case h_1 =>
    cases hrow
    cases hrow'
    cases hjoin
    exact .finSi
  case h_2 =>
    cases hrow
    cases hrow'
    cases hjoin
    exact .finPour
  case h_3 =>
    cases hrow
    cases hjoin
    cases hrow' with
    | itself => exact .finTantQue
    | tantQue hfirst hsecond => exact .finTantQueApart hfirst hsecond
  case h_4 first second =>
    cases hrow
    cases hrow'
    split at hjoin
    case isTrue hwords =>
      cases hjoin
      obtain ⟨hfirst, hsecond⟩ := Bool.and_eq_true_iff.mp hwords
      exact .tantQue hfirst hsecond
    case isFalse => cases hjoin
  case h_5 => cases hjoin

/-! ## Joining -/

/-- Whether a lexeme is what a row of lexemes spells, at the place of the first of them. -/
structure JoinsTo (row : List Lexeme) (lexeme : Lexeme) : Prop where
  spells : Spells (row.map Lexeme.token) lexeme.token
  span : row.head?.map Lexeme.span = some lexeme.span

theorem JoinsTo.join {row row' : List Lexeme} {lexeme lexeme' : Lexeme} {token : Token}
    (hrow : JoinsTo row lexeme) (hrow' : JoinsTo row' lexeme')
    (hjoin : join? lexeme.token lexeme'.token = some token) :
    JoinsTo (row ++ row') ⟨token, lexeme.span⟩ where
  spells := by
    rw [List.map_append]
    exact hrow.spells.join hrow'.spells hjoin
  span := by
    have hspan := hrow.span
    cases row <;> simp_all

/-- The rows are given from the last to the first, as the lexemes are. -/
theorem push_joins {rows : List (List Lexeme)} {before : List Lexeme}
    (hbefore : List.Forall₂ JoinsTo rows before) {row : List Lexeme} {lexeme : Lexeme}
    (hrow : JoinsTo row lexeme) :
    ∃ rows', List.Forall₂ JoinsTo rows' (push before lexeme) ∧
      rows'.reverse.flatten = rows.reverse.flatten ++ row := by
  induction hbefore generalizing row lexeme with
  | nil => exact ⟨[row], .cons hrow .nil, by simp⟩
  | @cons first last rows before hlast hbefore ih =>
    simp only [push]
    split
    case h_1 token hjoin =>
      obtain ⟨rows', hrows', hflat⟩ := ih (hlast.join hrow hjoin)
      exact ⟨rows', hrows', by simp [hflat]⟩
    case h_2 => exact ⟨row :: first :: rows, .cons hrow (.cons hlast hbefore), by simp⟩

theorem foldl_push_joins (lexemes : List Lexeme) {rows : List (List Lexeme)}
    {before : List Lexeme} (hbefore : List.Forall₂ JoinsTo rows before) :
    ∃ rows', List.Forall₂ JoinsTo rows' (lexemes.foldl push before) ∧
      rows'.reverse.flatten = rows.reverse.flatten ++ lexemes := by
  induction lexemes generalizing rows before with
  | nil => exact ⟨rows, hbefore, by simp⟩
  | cons lexeme lexemes ih =>
    have hself : JoinsTo [lexeme] lexeme := ⟨.itself, rfl⟩
    obtain ⟨rows', hpushed, hflat⟩ := push_joins hbefore hself
    obtain ⟨rows'', hrows, hflat'⟩ := ih hpushed
    exact ⟨rows'', hrows, by rw [hflat', hflat, List.append_assoc, List.singleton_append]⟩

/-- Joining takes the lexemes in order and leaves none out. -/
theorem joinWords_joins (lexemes : List Lexeme) :
    ∃ rows : List (List Lexeme), rows.flatten = lexemes ∧
      List.Forall₂ JoinsTo rows (joinWords lexemes) := by
  obtain ⟨rows, hrows, hflat⟩ := foldl_push_joins lexemes .nil
  exact ⟨rows.reverse, by simpa using hflat, List.rel_reverse hrows⟩

theorem spans_sublist {rows : List (List Lexeme)} {lexemes : List Lexeme}
    (h : List.Forall₂ JoinsTo rows lexemes) :
    (lexemes.map Lexeme.span).Sublist (rows.flatten.map Lexeme.span) := by
  induction h with
  | nil => exact .slnil
  | @cons row lexeme rows lexemes hrow _ ih =>
    have hspan := hrow.span
    cases row with
    | nil => cases hspan
    | cons first row =>
      have hsame : first.span = lexeme.span := Option.some.inj hspan
      have hskip := ih.trans (List.sublist_append_right (row.map Lexeme.span) _)
      simpa [hsame] using hskip

/-! ## Sources -/

theorem lexeme?_span {p : Piece} {lexeme : Lexeme} (h : p.lexeme? = some lexeme) :
    p.span = lexeme.span := by
  obtain ⟨token, -, rfl⟩ := Option.map_eq_some_iff.mp h
  rfl

theorem lexemes_increasing {pieces : List Piece}
    (h : pieces.Pairwise fun p q => p.span.Before q.span) :
    (pieces.filterMap Piece.lexeme?).Pairwise fun l m => l.span.Before m.span := by
  refine List.Pairwise.filterMap _ ?_ h
  intro p q hpq l hl m hm
  rwa [← lexeme?_span hl, ← lexeme?_span hm]

/-- What a source that is read to its end has to do with the tokens read from it. -/
structure ReadFrom (source : List Char) (pieces : List Piece) (lexemes : List Lexeme) : Prop where
  concatenation : source = pieces.flatMap Piece.text
  rows : ∃ rows : List (List Lexeme), rows.flatten = pieces.filterMap Piece.lexeme? ∧
    List.Forall₂ JoinsTo rows lexemes
  place : ∀ lexeme ∈ lexemes, ∃ before p after, p ∈ pieces ∧
    source = before ++ p.text ++ after ∧ lexeme.span = Span.after before
  increasing : lexemes.Pairwise fun l m => l.span.Before m.span

theorem Cut.readFrom {source : List Char} {pieces : List Piece} (h : Cut [] pieces source []) :
    ReadFrom source pieces (joinWords (pieces.filterMap Piece.lexeme?)) := by
  obtain ⟨rows, hflat, hrows⟩ := joinWords_joins (pieces.filterMap Piece.lexeme?)
  have hsub := spans_sublist hrows
  rw [hflat] at hsub
  refine ⟨by simpa using h.concatenation, ⟨rows, hflat, hrows⟩, fun lexeme hlexeme => ?_, ?_⟩
  · have hspan := hsub.subset (List.mem_map_of_mem hlexeme)
    obtain ⟨first, hfirst, hsame⟩ := List.mem_map.mp hspan
    obtain ⟨p, hp, hpfirst⟩ := List.mem_filterMap.mp hfirst
    obtain ⟨before, after, hbetween, hsource⟩ := h.between hp
    refine ⟨before, p, after, hp, hsource, ?_⟩
    rw [← hsame, ← lexeme?_span hpfirst, hbetween.span, List.nil_append]
  · have hspans := List.pairwise_map.mpr (lexemes_increasing h.increasing)
    exact List.pairwise_map.mp (hspans.sublist hsub)

/-- Lexing loses nothing of a source. The pieces it is cut into are each the longest text at its
place that stands for anything, and the token of a piece, or of neighbouring pieces that spell one
keyword, has the place that is counted from the text before. Where a source is refused, the pieces
before are as good, and the error is at the first place where nothing can be read. -/
theorem tokenize_lossless (source : String) :
    match tokenize source with
    | .ok lexemes => ∃ pieces, Cut [] pieces source.toList [] ∧
        ReadFrom source.toList pieces lexemes
    | .error e => ∃ pieces rest, Cut [] pieces source.toList rest ∧
        source.toList = pieces.flatMap Piece.text ++ rest ∧
        e.span = Span.after (pieces.flatMap Piece.text) ∧ Unreadable rest e.cause := by
  have hcut : CutsAll [] source.toList (pieces source) := pieces_cutsAll source
  unfold tokenize
  cases hpieces : pieces source with
  | ok pieces =>
    rw [hpieces] at hcut
    exact ⟨pieces, hcut, Cut.readFrom hcut⟩
  | error e =>
    rw [hpieces] at hcut
    obtain ⟨pieces, rest, hcut, hspan, hrest⟩ := hcut
    exact ⟨pieces, rest, hcut, hcut.concatenation, hspan, hrest⟩

example : tokenize "/* a\nb */ Fin\tSi" = .ok [⟨.keyword .finSi, ⟨2, 6⟩⟩] := by rfl

end Pseudocode
