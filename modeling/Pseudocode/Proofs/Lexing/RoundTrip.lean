import Mathlib.Data.List.Chain
import Pseudocode.Proofs.Lexing.Lossless
import Pseudocode.Proofs.Lexing.Written

/-! A row of tokens, written with one space between two, is read back. `TANT QUE` is written as two
names, which are joined again; no other neighbours may spell a keyword together. -/

namespace Pseudocode
set_option autoImplicit false

/-! ## Reading written words -/

/-- Whether a text is cut into pieces that stand for these tokens, wherever it stands. -/
def CutsInto (cs : List Char) (tokens : List Token) : Prop :=
  ∀ span, ∃ pieces, piecesFrom span 0 cs = .ok pieces ∧ pieces.filterMap Piece.token? = tokens

theorem CutsInto.nil : CutsInto [] [] := by
  intro span
  exact ⟨[], by rw [piecesFrom], rfl⟩

theorem CutsInto.word {w rest : List Char} {token : Token} {tokens : List Token} (hne : w ≠ [])
    (hw : longest (readings (w ++ rest)) = some ⟨w.length, .token token⟩)
    (hrest : CutsInto rest tokens) : CutsInto (w ++ rest) (token :: tokens) := by
  intro span
  obtain ⟨pieces, hpieces, htokens⟩ := hrest (w.foldl Span.next span)
  have hpiece := piecesFrom_piece (p := ⟨w, some token, span⟩) hne hw
  rw [hpieces] at hpiece
  exact ⟨_, hpiece, by simp [htokens]⟩

theorem longest_space {c : Char} (cs : List Char) (hc : isSpace c = false) :
    longest (readings (' ' :: c :: cs)) = some ⟨1, .skipped⟩ := by
  have hfixed := fixed_readings_of_spellsNothing (c := ' ') rfl (c :: cs)
  have hspace : isSpace ' ' = true := by rfl
  simp [readings, hfixed, name?, number?, string?, character?, comment?, spaces?, hspace, hc,
    isNameStart, longest]

theorem CutsInto.space {c : Char} {cs : List Char} {tokens : List Token} (hc : isSpace c = false)
    (h : CutsInto (c :: cs) tokens) : CutsInto (' ' :: c :: cs) tokens := by
  intro span
  obtain ⟨pieces, hpieces, htokens⟩ := h (span.next ' ')
  have hpiece := piecesFrom_piece (p := ⟨[' '], none, span⟩) (by simp) (longest_space cs hc)
  simp only [List.foldl_cons, List.foldl_nil, hpieces] at hpiece
  exact ⟨_, hpiece, by simp [htokens]⟩

/-- The tokens as which the words of a written token are read. -/
def Token.words : Token → List Token
  | .keyword .tantQue => [.ident "TANT", .ident "QUE"]
  | token => [token]

theorem Token.words_of_ne {token : Token} (h : token ≠ .keyword .tantQue) :
    token.words = [token] := by
  unfold Token.words
  split
  · contradiction
  · rfl

theorem freeName_tant : FreeName "TANT".toList :=
  ⟨⟨'T', ['A', 'N', 'T'], rfl, rfl, List.all_eq_true.mp rfl⟩, by decide +kernel⟩

theorem freeName_que : FreeName "QUE".toList :=
  ⟨⟨'Q', ['U', 'E'], rfl, rfl, List.all_eq_true.mp rfl⟩, by decide +kernel⟩

theorem CutsInto.token {token : Token} {rest : List Char} {tokens : List Token}
    (h : token.Writable) (hparted : Parted rest) (hrest : CutsInto rest tokens) :
    CutsInto (token.written ++ rest) (token.words ++ tokens) := by
  by_cases hjoined : token = .keyword .tantQue
  · subst hjoined
    have hque := longest_name freeName_que hparted
    have htant := longest_name freeName_tant (.inr ⟨"QUE".toList ++ rest, rfl⟩)
    have hsecond := CutsInto.word (by decide) hque hrest
    have hboth := CutsInto.word (by decide) htant (hsecond.space rfl)
    exact hboth
  · obtain ⟨c, cs, hfirst, -⟩ := written_first h
    rw [Token.words_of_ne hjoined]
    exact CutsInto.word (by simp [hfirst]) (longest_written h hjoined hparted) hrest

/-- The text of a row of tokens, one space between two. -/
def writtenText (tokens : List Token) : List Char :=
  [' '].intercalate (tokens.map Token.written)

theorem writtenText_cons_cons (first second : Token) (tokens : List Token) :
    writtenText (first :: second :: tokens) =
      first.written ++ ' ' :: writtenText (second :: tokens) := by
  simp [writtenText, List.intercalate]

theorem cutsInto_writtenText {tokens : List Token} (h : ∀ t ∈ tokens, t.Writable) :
    CutsInto (writtenText tokens) (tokens.flatMap Token.words) := by
  induction tokens with
  | nil => exact .nil
  | cons first tokens ih =>
    obtain ⟨hfirst, htokens⟩ := List.forall_mem_cons.mp h
    have hrest := ih htokens
    rw [List.flatMap_cons]
    cases tokens with
    | nil =>
      have hlast := CutsInto.token hfirst (.inl rfl) .nil
      simpa [writtenText, List.intercalate] using hlast
    | cons second tokens =>
      obtain ⟨c, cs, hsecond, hc⟩ := written_first (htokens second List.mem_cons_self)
      have htext : ∃ cs, writtenText (second :: tokens) = c :: cs := by
        cases tokens with
        | nil => exact ⟨cs, by simp [writtenText, List.intercalate, hsecond]⟩
        | cons third tokens => exact ⟨_, by rw [writtenText_cons_cons, hsecond]; rfl⟩
      obtain ⟨cs, htext⟩ := htext
      rw [writtenText_cons_cons]
      rw [htext] at hrest ⊢
      exact CutsInto.token hfirst (.inr ⟨_, rfl⟩) (hrest.space hc)

/-! ## Joining them again -/

/-- Whether two neighbours spell no keyword together. -/
def Separate (first second : Token) : Prop :=
  ∀ joined, ¬Spells [first, second] joined

theorem Separate.join? {first second : Token} (h : Separate first second) :
    join? first second = none := by
  cases hjoin : Pseudocode.join? first second with
  | none => rfl
  | some joined => exact absurd (Spells.itself.join .itself hjoin) (h joined)

theorem join?_tant (token : Token) : join? token (.ident "TANT") = none := by
  have htant : Text.sameAsciiWord "TANT" "que" = false := by decide
  cases token with
  | keyword word => cases word <;> rfl
  | ident first => simp [join?, htant]
  | _ => rfl

theorem push_of_separate {before : List Lexeme} {lexeme : Lexeme}
    (h : ∀ last ∈ before.head?, join? last.token lexeme.token = none) :
    push before lexeme = lexeme :: before := by
  cases before with
  | nil => rfl
  | cons last before => simp [push, h last rfl]

/-- The words of a written token are joined to it, and it stays apart from what stands before. -/
theorem foldl_push_words {token : Token} {before words : List Lexeme}
    (hwords : words.map Lexeme.token = token.words)
    (h : ∀ last ∈ before.head?, join? last.token token = none) :
    ∃ span, words.foldl push before = ⟨token, span⟩ :: before := by
  by_cases hjoined : token = .keyword .tantQue
  · subst hjoined
    obtain ⟨tant, _, rfl, htant, hrest⟩ := List.map_eq_cons_iff.mp hwords
    obtain ⟨que, _, rfl, hque, hnil⟩ := List.map_eq_cons_iff.mp hrest
    obtain rfl := List.map_eq_nil_iff.mp hnil
    have hfirst : push before tant = tant :: before :=
      push_of_separate fun last _ => htant ▸ join?_tant last.token
    have hjoin : join? tant.token que.token = some (.keyword .tantQue) := by
      rw [htant, hque]
      rfl
    have hjoined : push before ⟨.keyword .tantQue, tant.span⟩ =
      ⟨.keyword .tantQue, tant.span⟩ :: before := push_of_separate h
    refine ⟨tant.span, ?_⟩
    rw [List.foldl_cons, hfirst, List.foldl_cons, List.foldl_nil, push, hjoin]
    exact hjoined
  · rw [Token.words_of_ne hjoined] at hwords
    obtain ⟨lexeme, _, rfl, rfl, hnil⟩ := List.map_eq_cons_iff.mp hwords
    obtain rfl := List.map_eq_nil_iff.mp hnil
    exact ⟨lexeme.span, push_of_separate h⟩

theorem foldl_push_written {tokens : List Token} (hchain : tokens.IsChain Separate)
    (before : List Lexeme) {lexemes : List Lexeme}
    (hlexemes : lexemes.map Lexeme.token = tokens.flatMap Token.words)
    (hfirst : ∀ last ∈ before.head?, ∀ first ∈ tokens.head?, join? last.token first = none) :
    (lexemes.foldl push before).map Lexeme.token = tokens.reverse ++ before.map Lexeme.token := by
  induction tokens generalizing before lexemes with
  | nil =>
    obtain rfl := List.map_eq_nil_iff.mp hlexemes
    rfl
  | cons token tokens ih =>
    obtain ⟨words, rest, rfl, hwords, hrest⟩ := List.map_eq_append_iff.mp hlexemes
    obtain ⟨span, hpush⟩ := foldl_push_words hwords fun last hlast => hfirst last hlast token rfl
    have hnext := ih hchain.tail (⟨token, span⟩ :: before) hrest fun last hlast next hnext => by
      obtain rfl := Option.some.inj hlast
      exact (hchain.rel_head? hnext).join?
    rw [List.foldl_append, hpush, hnext]
    simp

theorem joinWords_words {tokens : List Token} (hchain : tokens.IsChain Separate)
    {lexemes : List Lexeme} (hlexemes : lexemes.map Lexeme.token = tokens.flatMap Token.words) :
    (joinWords lexemes).map Lexeme.token = tokens := by
  have hpush := foldl_push_written hchain [] hlexemes (by simp)
  rw [joinWords, List.map_reverse, hpush]
  simp

/-! ## The round trip -/

theorem lexemes_tokens (pieces : List Piece) :
    (pieces.filterMap Piece.lexeme?).map Lexeme.token = pieces.filterMap Piece.token? := by
  rw [List.map_filterMap]
  refine List.filterMap_congr fun p _ => ?_
  cases htoken : p.token? <;> simp [Piece.lexeme?, htoken]

/-- What is written can be read: a row of tokens, each in its canonical spelling and with one space
between two, is read back as it was, when no two neighbours spell a keyword together. -/
theorem tokenize_writtenText {tokens : List Token} (hwritable : ∀ token ∈ tokens, token.Writable)
    (hseparate : tokens.IsChain Separate) :
    (tokenize (String.ofList (writtenText tokens))).map (List.map Lexeme.token) = .ok tokens := by
  obtain ⟨pieces, hpieces, htokens⟩ := cutsInto_writtenText hwritable Span.start
  have hjoin := joinWords_words hseparate ((lexemes_tokens pieces).trans htokens)
  have hcut : Pseudocode.pieces (String.ofList (writtenText tokens)) = .ok pieces := by
    rw [pieces_eq_piecesFrom, String.toList_ofList, hpieces]
  rw [tokenize, hcut]
  exact congrArg Except.ok hjoin

/-- A head of a loop, an end of line, a lone `FIN` and two literals with marks to escape. -/
def mixedTokens : List Token :=
  [.keyword .tantQue, .ident "x", .op .less, .literal (.integer 10), .newline, .keyword .fin,
    .literal (.string "a\"b\\\n"), .literal (.character '\'')]

theorem tokenize_writtenText_mixed : (∀ token ∈ mixedTokens, token.Writable) ∧
    mixedTokens.IsChain Separate ∧
    (tokenize (String.ofList (writtenText mixedTokens))).map (List.map Lexeme.token) =
      .ok mixedTokens := by
  have hx : FreeName ['x'] := ⟨⟨'x', [], rfl, rfl, List.all_eq_true.mp rfl⟩, by decide +kernel⟩
  have hwritable : ∀ token ∈ mixedTokens, token.Writable := by
    simp [mixedTokens, Token.Writable, hx]
  have hseparate : mixedTokens.IsChain Separate := by
    unfold mixedTokens
    repeat' constructor
    all_goals rintro joined ⟨⟩
  exact ⟨hwritable, hseparate, tokenize_writtenText hwritable hseparate⟩

end Pseudocode
