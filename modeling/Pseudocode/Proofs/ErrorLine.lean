import Pseudocode.Execution
import Pseudocode.Proofs.ErrorOrigin
import Pseudocode.Proofs.Grammar.BuildsProgram
import Pseudocode.Proofs.Lexing.Lossless

/-! # Errors point into the source

Where the line of an error is not known, the parser puts a zero for the time being. No such line is
left in the end: tokens and lexical errors are on lines of the source, the nodes of a program and
grammatical errors are on lines of tokens, and the errors of a run on those of nodes.

* `IsLineOf`: the lines of a source.
* `parseSource_lines`: the nodes of a program, and what is wrong with a source that is none.
* `execute_line`: whatever goes wrong, and wherever a node stands, the line is one of the source. -/

namespace Pseudocode
set_option autoImplicit false

/-- A line of the source; every line feed starts another one. -/
def IsLineOf (source : String) (line : Nat) : Prop :=
  1 ≤ line ∧ line ≤ 1 + source.toList.count '\n'

theorem Span.after_isLineOf {source : String} {before after : List Char}
    (h : source.toList = before ++ after) : IsLineOf source (Span.after before).line := by
  have hcount : before.count '\n' ≤ source.toList.count '\n' := by
    rw [h, List.count_append]
    exact Nat.le_add_right _ _
  exact ⟨Nat.le_add_right _ _, Nat.add_le_add_left hcount 1⟩

theorem tokenize_lines (source : String) :
    match tokenize source with
    | .ok lexemes => LexemesOn (IsLineOf source) lexemes
    | .error error => IsLineOf source error.span.line := by
  have hcut : CutsAll [] source.toList (pieces source) := pieces_cutsAll source
  unfold tokenize
  cases hpieces : pieces source with
  | ok pieces =>
    rw [hpieces] at hcut
    intro lexeme hlexeme
    obtain ⟨before, p, after, -, hsource, hspan⟩ := hcut.readFrom.place lexeme hlexeme
    rw [hspan]
    rw [List.append_assoc] at hsource
    exact Span.after_isLineOf hsource
  | error error =>
    rw [hpieces] at hcut
    obtain ⟨pieces, rest, hcut, hspan, -⟩ := hcut
    rw [List.nil_append] at hspan
    change IsLineOf source error.span.line
    rw [hspan]
    exact Span.after_isLineOf hcut.concatenation

/-- The failure is that of an empty program, or it points at a line with the property. -/
def Failure.On (P : Nat → Prop) (failure : Failure) : Prop :=
  (∃ error, failure = .grammatical error ∧ error.cause = .emptyProgram) ∨
    ∃ line, failure.line? = some line ∧ P line

theorem SyntaxError.on_line {P : Nat → Prop} {error : SyntaxError}
    (h : error.cause = .emptyProgram ∨ P error.line) : (Failure.grammatical error).On P := by
  by_cases hempty : error.cause = .emptyProgram
  · exact .inl ⟨error, rfl, hempty⟩
  · exact .inr ⟨error.line, if_neg hempty, h.resolve_left hempty⟩

theorem parseSource_lines (source : String) :
    match parseSource source with
    | .ok program => program.OnLines (IsLineOf source)
    | .error failure => failure.On (IsLineOf source) := by
  have htokens := tokenize_lines source
  unfold parseSource
  cases htokenize : tokenize source with
  | error error =>
    rw [htokenize] at htokens
    exact .inr ⟨error.span.line, rfl, htokens⟩
  | ok lexemes =>
    rw [htokenize] at htokens
    have hbuilt := parse_built htokens
    dsimp only
    cases hparse : parse lexemes with
    | error error =>
      rw [hparse] at hbuilt
      exact SyntaxError.on_line hbuilt
    | ok program =>
      rw [hparse] at hbuilt
      exact hbuilt.1

theorem Program.run_failure_on {P : Nat → Prop} {program : Program} (h : program.OnLines P)
    {inputs : List String} {limits : Limits} {clock : Clock} {failure : Failure}
    (hfailure :
      (Outcome.ofResult (program.run (.initial inputs limits clock))).failure = some failure) :
    failure.On P := by
  cases hrun : program.run (.initial inputs limits clock) with
  | ok _ m =>
    rw [hrun] at hfailure
    cases hfailure
  | error error m =>
    rw [hrun] at hfailure
    cases hfailure
    exact .inr ⟨error.line, rfl, (run_origin h hrun).on_line⟩

/-- Whatever goes wrong with a source, the error points at a line of the source, unless the program
is empty; and so does every node of the program. -/
theorem execute_line (source : String) :
    (∀ inputs limits clock failure,
      (execute source inputs limits clock).failure = some failure →
      (∃ error, failure = .grammatical error ∧ error.cause = .emptyProgram) ∨
      ∃ line, failure.line? = some line ∧ IsLineOf source line) ∧
    ∀ program, parseSource source = .ok program → program.OnLines (IsLineOf source) := by
  have hlines := parseSource_lines source
  constructor
  · intro inputs limits clock failure hfailure
    unfold execute at hfailure
    cases hparse : parseSource source with
    | error found =>
      rw [hparse] at hlines hfailure
      cases hfailure
      exact hlines
    | ok program =>
      rw [hparse] at hlines hfailure
      exact Program.run_failure_on hlines hfailure
  · intro program hparse
    rw [hparse] at hlines
    exact hlines

/-- A keyword is missing at the end of the source; the error points at the last token before it. -/
theorem execute_line_end :
    let error : SyntaxError := ⟨.unexpectedEnd (.token (.keyword .finSi)), 1⟩
    (execute "SI VRAI ALORS\n" [] .standard .steady).failure = some (.grammatical error) ∧
    ∃ line, (Failure.grammatical error).line? = some line ∧ IsLineOf "SI VRAI ALORS\n" line := by
  intro error
  have htokenize : tokenize "SI VRAI ALORS\n" = .ok [⟨.keyword .si, ⟨1, 1⟩⟩,
    ⟨.literal (.boolean true), ⟨1, 4⟩⟩, ⟨.keyword .alors, ⟨1, 9⟩⟩, ⟨.newline, ⟨1, 14⟩⟩] := by rfl
  have hparse : parse [⟨.keyword .si, ⟨1, 1⟩⟩, ⟨.literal (.boolean true), ⟨1, 4⟩⟩,
    ⟨.keyword .alors, ⟨1, 9⟩⟩, ⟨.newline, ⟨1, 14⟩⟩] = .error error := rfl
  have hfailure : (execute "SI VRAI ALORS\n" [] .standard .steady).failure =
      some (.grammatical error) := by
    simp only [execute, parseSource, htokenize, hparse, Outcome.failed]
  rcases (execute_line "SI VRAI ALORS\n").1 [] .standard .steady _ hfailure
    with ⟨_, ⟨⟩, hempty⟩ | hline
  · cases hempty
  · exact ⟨hfailure, hline⟩

end Pseudocode
