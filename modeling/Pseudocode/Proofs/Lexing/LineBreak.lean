import Pseudocode.Proofs.Lexing.LineMark
import Pseudocode.Token.Join

/-! # Lines are read one by one

Nothing but a comment between its two marks goes past the end of a line. What stands before a line
feed is therefore read as if the source ended there, and what stands after it as a source of its own
that begins further down. No word is joined to one on another line.

* `readings_break`: the readings at a place do not depend on what follows its line.
* `piecesFrom_break`, `joinWords_break`: the pieces and the tokens of two parts.
* `tokenize_append`: a source of two parts. -/

namespace Pseudocode
set_option autoImplicit false

/-! ## Readings before a line feed -/

section Break
variable {cs : List Char} (rest : List Char)

theorem takeWhile_break {p : Char → Bool} (hp : p '\n' = false) :
    (cs ++ '\n' :: rest).takeWhile p = cs.takeWhile p := by
  induction cs with
  | nil => simp [hp]
  | cons c cs ih => by_cases hc : p c = true <;> simp [hc, ih]

theorem dropWhile_break {p : Char → Bool} (hp : p '\n' = false) :
    (cs ++ '\n' :: rest).dropWhile p = cs.dropWhile p ++ '\n' :: rest := by
  induction cs with
  | nil => simp [hp]
  | cons c cs ih => by_cases hc : p c = true <;> simp [hc, ih]

/-- A text without a line feed ends before the first one. -/
theorem prefix_of_break {text : List Char} (hfeed : '\n' ∉ text)
    (h : text <+: cs ++ '\n' :: rest) : text <+: cs := by
  by_cases hlength : text.length ≤ cs.length
  · exact List.prefix_of_prefix_length_le h (List.prefix_append ..) hlength
  · have hline : cs ++ ['\n'] <+: cs ++ '\n' :: rest := by simp
    have hlonger := List.prefix_of_prefix_length_le hline h (by simp; omega)
    exact absurd (hlonger.subset (by simp)) hfeed

theorem spelled_break {text : List Char} (hcs : cs ≠ []) (h : '\n' ∈ text → text = ['\n']) :
    text <+: cs ++ '\n' :: rest ↔ text <+: cs := by
  refine ⟨fun hfront => ?_, fun hfront => hfront.trans (List.prefix_append ..)⟩
  by_cases hfeed : '\n' ∈ text
  · obtain ⟨c, cs, rfl⟩ := List.exists_cons_of_ne_nil hcs
    rw [h hfeed] at hfront ⊢
    simpa using hfront
  · exact prefix_of_break rest hfeed hfront

theorem Spelling.reading?_break {s : Spelling} (hs : s ∈ vocabulary) (hcs : cs ≠ []) :
    s.reading? (cs ++ '\n' :: rest) = s.reading? cs := by
  have hstands : s.stands (cs ++ '\n' :: rest) = s.stands cs := by
    rw [Bool.eq_iff_iff, s.stands_iff_prefix, s.stands_iff_prefix, List.map_append, List.map_cons,
      s.seen_feed]
    have hfeed : '\n' ∈ s.text → s.text = ['\n'] := fun h => (vocabulary_newline s hs (.inl h)).2.1
    exact spelled_break _ (by simpa using hcs) hfeed
  rw [Spelling.reading?, Spelling.reading?, hstands]

theorem name?_break : name? (cs ++ '\n' :: rest) = name? cs := by
  cases cs with
  | nil => rfl
  | cons c cs => simp only [List.cons_append, name?, takeWhile_break rest (p := isNameRest) rfl]

theorem fractionDigits_break : fractionDigits (cs ++ '\n' :: rest) = fractionDigits cs := by
  cases cs with
  | nil => rfl
  | cons c cs =>
    by_cases hc : c = '.'
    · subst hc
      exact takeWhile_break rest rfl
    · simp [fractionDigits, hc]

theorem number?_break : number? (cs ++ '\n' :: rest) = number? cs := by
  rw [number?_eq, number?_eq, takeWhile_break rest rfl, dropWhile_break rest rfl,
    fractionDigits_break]

theorem stringBody_break : stringBody (cs ++ '\n' :: rest) = stringBody cs := by
  fun_induction stringBody cs with
  | case1 => rfl
  | case2 => rfl
  | case3 => rfl
  | case4 => rfl
  | case5 => rfl
  | case6 c cs hfeed ih => simp [stringBody, hfeed, ih]
  | case7 c cs hquote hfeed hlast hslash ih =>
    have hplain : c ≠ '\\' := fun hc => by
      cases cs with
      | nil => exact hlast hc rfl
      | cons => exact hslash _ _ hc rfl
    rw [List.cons_append, stringBody.eq_def]
    split <;> simp_all

theorem string?_break : string? (cs ++ '\n' :: rest) = string? cs := by
  cases cs with
  | nil => rfl
  | cons c cs =>
    by_cases hc : c = '"'
    · subst hc
      simp only [List.cons_append, string?, stringBody_break]
    · simp [string?, hc]

theorem character?_break : character? (cs ++ '\n' :: rest) = character? cs := by
  ext r
  constructor
  · intro h
    rcases of_character? h with
      ⟨c, after, hquote, hslash, hfeed, hcs, rfl⟩ | ⟨c, after, hfeed, hcs, rfl⟩
    · have hfront : ['\'', c, '\''] <+: cs ++ '\n' :: rest := ⟨after, hcs.symm⟩
      obtain ⟨line, rfl⟩ := prefix_of_break rest (by simp [hfeed.symm]) hfront
      exact character?_plain line hquote hslash hfeed
    · have hfront : ['\'', '\\', c, '\''] <+: cs ++ '\n' :: rest := ⟨after, hcs.symm⟩
      obtain ⟨line, rfl⟩ := prefix_of_break rest (by simp [hfeed.symm]) hfront
      exact character?_escaped line hfeed
  · intro h
    rcases of_character? h with
      ⟨c, line, hquote, hslash, hfeed, rfl, rfl⟩ | ⟨c, line, hfeed, rfl, rfl⟩
    · rw [List.append_assoc]
      exact character?_plain _ hquote hslash hfeed
    · rw [List.append_assoc]
      exact character?_escaped _ hfeed

theorem comment?_break (hopen : ¬['/', '*'] <+: cs) :
    comment? (cs ++ '\n' :: rest) = comment? cs := by
  have hline {line : List Char} : lineLength (line ++ '\n' :: rest) = lineLength line := by
    rw [lineLength, lineLength, takeWhile_break rest rfl]
  fun_cases comment? cs with
  | case1 line => exact congrArg (fun n => some (Reading.mk (1 + n) .skipped)) hline
  | case2 line => exact congrArg (fun n => some (Reading.mk (2 + n) .skipped)) hline
  | case3 => exact absurd (by simp) hopen
  | case4 _ hhash hslash hblock =>
    apply comment?_eq_none
    all_goals rcases cs with _ | ⟨a, _ | ⟨b, cs⟩⟩ <;> simp_all

theorem spaces?_break : spaces? (cs ++ '\n' :: rest) = spaces? cs := by
  simp only [spaces?, takeWhile_break rest (p := isSpace) rfl]

theorem readings_break (hcs : cs ≠ []) (hopen : ¬['/', '*'] <+: cs) :
    readings (cs ++ '\n' :: rest) = readings cs := by
  have hspellings : vocabulary.filterMap (·.reading? (cs ++ '\n' :: rest)) =
      vocabulary.filterMap (·.reading? cs) :=
    List.filterMap_congr fun s hs => Spelling.reading?_break rest hs hcs
  simp only [readings, List.filterMap_cons, List.filterMap_nil, hspellings, name?_break,
    number?_break, string?_break, character?_break, comment?_break rest hopen, spaces?_break]

end Break

/-! ## Pieces of two parts -/

theorem longest_feed (rest : List Char) :
    longest (readings ('\n' :: rest)) = some ⟨1, .token .newline⟩ := by
  rfl

/-- The pieces before a line feed are those of the text before it. -/
theorem piecesFrom_break {cs : List Char} (rest : List Char) (hopen : ¬['/', '*'] <:+: cs)
    (span : Span) {skip : Nat} (hskip : skip ≤ cs.length) :
    piecesFrom span skip (cs ++ '\n' :: rest) =
      (piecesFrom span skip cs).bind fun before =>
        (piecesFrom (cs.foldl Span.next span) 0 ('\n' :: rest)).map (before ++ ·) := by
  induction cs generalizing span skip with
  | nil =>
    obtain rfl : skip = 0 := Nat.le_zero.1 hskip
    rw [List.nil_append, List.foldl_nil]
    generalize piecesFrom span 0 ('\n' :: rest) = result
    rw [piecesFrom]
    cases result <;> rfl
  | cons c cs ih =>
    have hline : ¬['/', '*'] <:+: cs := fun h => hopen (List.infix_cons h)
    cases skip with
    | succ skip => exact ih hline (span.next c) (Nat.le_of_succ_le_succ hskip)
    | zero =>
      have hfirst := readings_break rest (List.cons_ne_nil c cs) fun h => hopen h.isInfix
      rw [List.cons_append] at hfirst
      have hshorter (length : Nat) (hle : length ≤ cs.length + 1) :=
        ih hline (span.next c) (show length - 1 ≤ cs.length by omega)
      rw [List.foldl_cons]
      generalize piecesFrom (cs.foldl Span.next (span.next c)) 0 ('\n' :: rest) = result
        at hshorter ⊢
      simp only [List.cons_append, piecesFrom, hfirst]
      cases hlongest : longest (readings (c :: cs)) with
      | none => rfl
      | some r =>
        -- the piece is a part of the text, so that it ends before the line feed
        obtain ⟨text, after, hsplit, hlength, -⟩ := foremost_of_longest hlongest
        have hle : r.length ≤ cs.length + 1 := by
          rw [hlength, ← List.length_cons, hsplit, List.length_append]
          omega
        have hrest := hshorter r.length hle
        have htake : (c :: (cs ++ '\n' :: rest)).take r.length = (c :: cs).take r.length := by
          rw [← List.cons_append, List.take_append_of_le_length (by simpa using hle)]
        obtain ⟨length, meaning⟩ := r
        cases meaning with
        | refused => rfl
        | skipped | token =>
          simp only [hrest, htake]
          cases piecesFrom (span.next c) (length - 1) cs <;> cases result <;> rfl

theorem piecesFrom_feed (span : Span) (rest : List Char) :
    piecesFrom span 0 ('\n' :: rest) =
      (piecesFrom (span.next '\n') 0 rest).map (⟨['\n'], some .newline, span⟩ :: ·) := by
  rw [piecesFrom, longest_feed]
  cases h : piecesFrom (span.next '\n') 0 rest <;> simp [h] <;> rfl

/-! ## Places further down -/

/-- A place `n` lines further down. -/
def Span.below (n : Nat) (span : Span) : Span := ⟨span.line + n, span.column⟩

def Piece.below (n : Nat) (piece : Piece) : Piece := { piece with span := piece.span.below n }

def Lexeme.below (n : Nat) (lexeme : Lexeme) : Lexeme :=
  { lexeme with span := lexeme.span.below n }

def LexError.below (n : Nat) (error : LexError) : LexError :=
  { error with span := error.span.below n }

section Below
variable (n : Nat)

theorem Span.next_below (span : Span) (c : Char) :
    (span.below n).next c = (span.next c).below n := by
  unfold Span.next
  split
  · simp only [below]
    congr 1
    omega
  · rfl

theorem piecesFrom_below (span : Span) (skip : Nat) (cs : List Char) :
    piecesFrom (span.below n) skip cs =
      ((piecesFrom span skip cs).map (·.map (Piece.below n))).mapError (LexError.below n) := by
  fun_induction piecesFrom span skip cs with
  | case1 => rfl
  | case2 span skip c cs ih => rw [piecesFrom, Span.next_below, ih]
  | case3 span c cs hnone => simp [piecesFrom, hnone]; rfl
  | case4 span c cs _ _ hrefused => simp [piecesFrom, hrefused]; rfl
  | case5 span c cs length hskipped ih =>
    simp only [piecesFrom, hskipped, Span.next_below, ih]
    cases piecesFrom (span.next c) (length - 1) cs <;> rfl
  | case6 span c cs length token htoken ih =>
    simp only [piecesFrom, htoken, Span.next_below, ih]
    cases piecesFrom (span.next c) (length - 1) cs <;> rfl

theorem lexeme?_below (piece : Piece) :
    (piece.below n).lexeme? = piece.lexeme?.map (Lexeme.below n) := by
  obtain ⟨text, token?, span⟩ := piece
  cases token? <;> rfl

theorem push_below (before : List Lexeme) (lexeme : Lexeme) :
    push (before.map (Lexeme.below n)) (lexeme.below n) =
      (push before lexeme).map (Lexeme.below n) := by
  induction before generalizing lexeme with
  | nil => rfl
  | cons last before ih =>
    simp only [List.map_cons, push, Lexeme.below]
    split
    · exact ih ⟨_, last.span⟩
    · rfl

theorem joinWords_below (lexemes : List Lexeme) :
    joinWords (lexemes.map (Lexeme.below n)) = (joinWords lexemes).map (Lexeme.below n) := by
  have hfoldl (before : List Lexeme) :
      (lexemes.map (Lexeme.below n)).foldl push (before.map (Lexeme.below n)) =
        (lexemes.foldl push before).map (Lexeme.below n) := by
    induction lexemes generalizing before with
    | nil => rfl
    | cons lexeme lexemes ih => rw [List.map_cons, List.foldl_cons, push_below, ih, List.foldl_cons]
  have hpushed := hfoldl []
  rw [List.map_nil] at hpushed
  rw [joinWords, joinWords, hpushed, List.map_reverse]

end Below

/-! ## Words of two parts -/

section Join
variable {feed : Lexeme} (hfeed : feed.token = .newline)
include hfeed

theorem push_after_feed (before earlier : List Lexeme) (lexeme : Lexeme) :
    push (before ++ feed :: earlier) lexeme = push before lexeme ++ feed :: earlier := by
  induction before generalizing lexeme with
  | nil => simp [push, hfeed, join?]
  | cons last before ih =>
    rw [List.cons_append, push, push]
    split
    · exact ih _
    · rfl

theorem joinWords_break (before after : List Lexeme) :
    joinWords (before ++ feed :: after) = joinWords before ++ feed :: joinWords after := by
  have hbefore (earlier : List Lexeme) : push earlier feed = feed :: earlier := by
    cases earlier with
    | nil => rfl
    | cons last earlier => simp [push, hfeed, join?]
  -- no word looks back further than to the line feed, which is never joined
  have hafter (later earlier : List Lexeme) :
      after.foldl push (later ++ feed :: earlier) = after.foldl push later ++ feed :: earlier := by
    induction after generalizing later with
    | nil => rfl
    | cons lexeme after ih => rw [List.foldl_cons, List.foldl_cons, push_after_feed hfeed, ih]
  have hpushed := hafter [] (before.foldl push [])
  rw [List.nil_append] at hpushed
  rw [joinWords, joinWords, joinWords, List.foldl_append, List.foldl_cons, hbefore, hpushed]
  simp

end Join

/-! ## Sources of two parts -/

theorem Span.after_feed (before : List Char) :
    (Span.after before).next '\n' = Span.start.below (1 + before.count '\n') := by
  simp [Span.after, Span.next, Span.start, Span.below, Nat.add_comm, Nat.add_left_comm]

section Sources
variable {source : String} (after : String) (hopen : ¬['/', '*'] <:+: source.toList)
include hopen

theorem pieces_break :
    pieces (source ++ "\n" ++ after) = (pieces source).bind fun before =>
      (((pieces after).map (·.map (Piece.below (1 + source.toList.count '\n')))).mapError
        (LexError.below (1 + source.toList.count '\n'))).map fun more =>
          before ++ ⟨['\n'], some .newline, Span.after source.toList⟩ :: more := by
  have htext : (source ++ "\n" ++ after).toList = source.toList ++ '\n' :: after.toList := by simp
  have hstart : source.toList.foldl Span.next .start = Span.after source.toList :=
    Span.foldl_next [] source.toList
  rw [pieces_eq_piecesFrom, pieces_eq_piecesFrom, pieces_eq_piecesFrom, htext,
    piecesFrom_break _ hopen _ (Nat.zero_le _), hstart, piecesFrom_feed, Span.after_feed,
    piecesFrom_below]
  cases piecesFrom .start 0 source.toList with
  | error error => rfl
  | ok before => cases piecesFrom .start 0 after.toList <;> rfl

/-- What is read of two lines or more is what is read of either part, whether it can be read or
not. -/
theorem tokenize_append :
    tokenize (source ++ "\n" ++ after) = (tokenize source).bind fun before =>
      (((tokenize after).map (·.map (Lexeme.below (1 + source.toList.count '\n')))).mapError
        (LexError.below (1 + source.toList.count '\n'))).map fun more =>
          before ++ ⟨.newline, Span.after source.toList⟩ :: more := by
  rw [tokenize, tokenize, tokenize, pieces_break after hopen]
  cases pieces source with
  | error error => rfl
  | ok before =>
    cases pieces after with
    | error error => rfl
    | ok more =>
      have hlexemes : (more.map (Piece.below (1 + source.toList.count '\n'))).filterMap
          Piece.lexeme? = (more.filterMap Piece.lexeme?).map
            (Lexeme.below (1 + source.toList.count '\n')) := by
        rw [List.filterMap_map, List.map_filterMap]
        exact List.filterMap_congr fun piece _ => lexeme?_below _ piece
      have hfeed : Piece.lexeme? ⟨['\n'], some .newline, Span.after source.toList⟩ =
          some ⟨.newline, Span.after source.toList⟩ := rfl
      refine congrArg Except.ok ?_
      dsimp only
      rw [List.filterMap_append, List.filterMap_cons_some hfeed, joinWords_break rfl, hlexemes,
        joinWords_below]

end Sources

/-- Lexing is compositional at line breaks: what follows a line feed is read as a source of its own,
only further down, unless a comment was opened that may go on there. -/
theorem tokenize_append_line {source : String} {lexemes : List Lexeme} (after : String)
    (haccepted : tokenize source = .ok lexemes) (hopen : ¬['/', '*'] <:+: source.toList) :
    tokenize (source ++ "\n" ++ after) =
      match tokenize after with
      | .ok more => .ok (lexemes ++ ⟨.newline, Span.after source.toList⟩ ::
          more.map (Lexeme.below (1 + source.toList.count '\n')))
      | .error error => .error (error.below (1 + source.toList.count '\n')) := by
  rw [tokenize_append after hopen, haccepted]
  cases tokenize after <;> rfl

/-- A keyword of two words does not go on after a line feed, nor does a comment. -/
theorem tokenize_append_line_fin : tokenize "Fin #" = .ok [⟨.keyword .fin, ⟨1, 1⟩⟩] ∧
    ¬['/', '*'] <:+: "Fin #".toList ∧
    tokenize ("Fin #" ++ "\n" ++ "Si \"") = .error ⟨.unterminatedString, ⟨2, 4⟩⟩ := by
  have haccepted : tokenize "Fin #" = .ok [⟨.keyword .fin, ⟨1, 1⟩⟩] := by decide +kernel
  have hopen : ¬['/', '*'] <:+: "Fin #".toList := by decide +kernel
  have hafter : tokenize "Si \"" = .error ⟨.unterminatedString, ⟨1, 4⟩⟩ := by decide +kernel
  refine ⟨haccepted, hopen, ?_⟩
  rw [tokenize_append_line "Si \"" haccepted hopen, hafter]
  rfl

end Pseudocode
