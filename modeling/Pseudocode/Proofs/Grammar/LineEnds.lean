import Mathlib.Data.List.Destutter
import Mathlib.Data.List.DropRight
import Pseudocode.Proofs.Grammar.SeparatorsProgram

/-! # Separators are interchangeable

A semicolon separates what a line end separates, and a run of separators separates no more than its
first. The check of the nesting cannot tell such rows apart either: it starts anew at each line end,
once or many times, and what is open does not exceed a limit there.

* `withLineEnds`: a row with one line end for each run of separators.
* `parse_withLineEnds`: it is parsed as the same program, or fails alike. -/

namespace Pseudocode
set_option autoImplicit false

/-! ## The check of the nesting -/

namespace Depth
variable {depth : Depth}

theorem step_of_separator {token : Token} (h : token.isSeparator = true) :
    depth.step token = { depth with prefixes := 0, operators := 0, forHeader := false } := by
  rcases Token.isSeparator_iff.1 h with rfl | rfl <;> rfl

/-- A separator opens nothing, so that no limit is exceeded at it. -/
theorem check_separator {mark : Lexeme} {ls : List Lexeme} (h : mark.token.isSeparator = true)
    (hdepth : depth.total ≤ maxNesting) :
    depth.check (mark :: ls) =
      Depth.check { depth with prefixes := 0, operators := 0, forHeader := false } ls := by
  have htotal : ¬ maxNesting < (depth.step mark.token).total := by
    rw [step_of_separator h]
    simp only [total] at hdepth ⊢
    omega
  have hoperators : ¬ maxLineOperators < (depth.step mark.token).operators := by
    simp [step_of_separator h]
  rw [check, if_neg htotal, if_neg hoperators, step_of_separator h]

theorem check_dropWhile {ls : List Lexeme} (hdepth : depth.total ≤ maxNesting)
    (hfresh : { depth with prefixes := 0, operators := 0, forHeader := false } = depth) :
    depth.check (ls.dropWhile (·.token.isSeparator)) = depth.check ls := by
  induction ls with
  | nil => rfl
  | cons lexeme ls ih =>
    by_cases h : lexeme.token.isSeparator = true
    · rw [check_separator h hdepth, hfresh, ← ih]
      simp [h]
    · simp [h]

theorem check_same {n : Nat} {ls ls' : List Lexeme} (h : SameRows n ls ls')
    (hdepth : depth.total ≤ maxNesting) : depth.check ls = depth.check ls' := by
  induction h generalizing depth with
  | nil => rfl
  | token _ _ ih =>
    rw [check, check]
    split
    · rfl
    · split
      · rfl
      · next htotal _ => exact ih (Nat.not_lt.1 htotal)
  | separators hmark hmark' _ _ ih =>
    have htotal : Depth.total { depth with prefixes := 0, operators := 0, forHeader := false } ≤
        maxNesting := by
      simp only [total] at hdepth ⊢
      omega
    rw [check_separator hmark hdepth, check_separator hmark' hdepth,
      ← check_dropWhile htotal rfl, ih htotal, check_dropWhile htotal rfl]

end Depth

/-! ## Outcomes -/

/-- Two outcomes of parsing: the same program, or errors of one kind on one line. -/
inductive ParsedAlike : Except SyntaxError Program → Except SyntaxError Program → Prop where
  | ok {program : Program} : ParsedAlike (.ok program) (.ok program)
  | error {e e' : SyntaxError} : e.Alike e' → ParsedAlike (.error e) (.error e')

theorem SyntaxError.Alike.endingOn {e e' : SyntaxError} (h : e.Alike e') (line : Nat) :
    (e.endingOn line).Alike (e'.endingOn line) := by
  cases h with
  | same => exact .same
  | separator hfound hfound' => exact .separator hfound hfound'

theorem SameRows.filter {n : Nat} {ls ls' : List Lexeme} (h : SameRows n ls ls') :
    ls.filter (!·.token.isSeparator) = ls'.filter (!·.token.isSeparator) := by
  have hdrop (ls : List Lexeme) : (ls.dropWhile (·.token.isSeparator)).filter
      (!·.token.isSeparator) = ls.filter (!·.token.isSeparator) := by
    induction ls with
    | nil => rfl
    | cons lexeme ls ih => by_cases h : lexeme.token.isSeparator = true <;> simp [h, ih]
  induction h with
  | nil => rfl
  | token hlexeme _ ih => simp [hlexeme, ih]
  | separators hmark hmark' _ _ ih =>
    rw [hdrop, hdrop] at ih
    simp [hmark, hmark', ih]

theorem SameRows.lastMeaningful {n : Nat} {ls ls' : List Lexeme} (h : SameRows n ls ls') :
    lastMeaningful? ls = lastMeaningful? ls' := by
  simp only [lastMeaningful?, ← List.head?_filter, List.filter_reverse, h.filter]

theorem SameRows.parse {n : Nat} {ls ls' : List Lexeme} (h : SameRows n ls ls') :
    ParsedAlike (parse ls) (parse ls') := by
  have hcheck : checkNesting ls = checkNesting ls' := Depth.check_same h (Nat.zero_le maxNesting)
  have hprogram := Parser.matches_program ls ls' h
  unfold Pseudocode.parse
  rw [← h.lastMeaningful, ← hcheck]
  cases lastMeaningful? ls with
  | none => exact .error .same
  | some last =>
    cases checkNesting ls with
    | error error => exact .error .same
    | ok =>
      generalize Parser.program ls = result at hprogram ⊢
      generalize Parser.program ls' = result' at hprogram ⊢
      cases hprogram with
      | ok => exact .ok
      | error halike => exact .error (halike.endingOn last.span.line)

/-! ## One line end for each run -/

/-- A line end in the place of a semicolon. -/
def Lexeme.lineEnd (lexeme : Lexeme) : Lexeme :=
  if lexeme.token = .punct .semicolon then ⟨.newline, lexeme.span⟩ else lexeme

/-- Whether a lexeme stands after the given one when of each run of separators the first stays. -/
abbrev Lexeme.StaysAfter (before lexeme : Lexeme) : Prop :=
  ¬(before.token.isSeparator = true ∧ lexeme.token.isSeparator = true)

/-- The row in which each semicolon is a line end, and each run of line ends its first one. -/
def withLineEnds (lexemes : List Lexeme) : List Lexeme :=
  (lexemes.map Lexeme.lineEnd).destutter Lexeme.StaysAfter

namespace Lexeme
variable {lexeme : Lexeme} {ls : List Lexeme}

@[simp] theorem span_lineEnd : lexeme.lineEnd.span = lexeme.span := by
  unfold lineEnd
  split <;> rfl

@[simp] theorem isSeparator_lineEnd :
    lexeme.lineEnd.token.isSeparator = lexeme.token.isSeparator := by
  unfold lineEnd
  split
  · next h => rw [h]; rfl
  · rfl

theorem lineEnd_of_token (h : lexeme.token.isSeparator = false) : lexeme.lineEnd = lexeme := by
  refine if_neg fun heq => ?_
  rw [heq] at h
  cases h

theorem destutter_of_token (h : lexeme.token.isSeparator = false) :
    ls.destutter' StaysAfter lexeme = lexeme :: ls.destutter StaysAfter := by
  cases ls with
  | nil => rfl
  | cons next ls => rw [List.destutter'_cons_pos _ (by simp [StaysAfter, h]), List.destutter_cons']

theorem destutter_of_separator (h : lexeme.token.isSeparator = true) :
    ls.destutter' StaysAfter lexeme =
      lexeme :: (ls.dropWhile (·.token.isSeparator)).destutter StaysAfter := by
  induction ls with
  | nil => rfl
  | cons next ls ih =>
    by_cases hnext : next.token.isSeparator = true
    · rw [List.destutter'_cons_neg _ (by simp [StaysAfter, h, hnext]), ih]
      simp [hnext]
    · rw [List.destutter'_cons_pos _ (by simp [StaysAfter, hnext])]
      simp [hnext, List.destutter_cons']

end Lexeme

/-- The induction is on the length: what follows a run of separators is a part of what follows its
first. -/
theorem sameRows_withLineEnds (lexemes : List Lexeme) :
    ∃ n, SameRows n lexemes (withLineEnds lexemes) := by
  induction hlength : lexemes.length using Nat.strong_induction_on generalizing lexemes with
  | _ length ih =>
  subst hlength
  cases lexemes with
  | nil => exact ⟨0, .nil⟩
  | cons lexeme ls =>
    unfold withLineEnds
    rw [List.map_cons, List.destutter_cons']
    by_cases h : lexeme.token.isSeparator = true
    · have hdrop := (List.dropWhile_suffix (·.token.isSeparator) (l := ls)).length_le
      obtain ⟨n, hrows⟩ := ih _ (Nat.lt_succ_of_le hdrop) _ rfl
      have hmap : (ls.map Lexeme.lineEnd).dropWhile (·.token.isSeparator) =
          (ls.dropWhile (·.token.isSeparator)).map Lexeme.lineEnd := by
        simp [List.dropWhile_map, Function.comp_def]
      rw [Lexeme.destutter_of_separator (by simp [h]), hmap]
      have hskipped := hrows.dropWhile
      rw [List.dropWhile_idempotent] at hskipped
      exact ⟨n, .separators h (by simp [h]) Lexeme.span_lineEnd hskipped⟩
    · have htoken : lexeme.token.isSeparator = false := Bool.eq_false_iff.2 h
      obtain ⟨n, hrows⟩ := ih _ (Nat.lt_succ_self ls.length) ls rfl
      rw [Lexeme.lineEnd_of_token htoken, Lexeme.destutter_of_token htoken]
      exact ⟨n + 1, .token htoken hrows⟩

/-- Separators are interchangeable: with one line end for each run of separators a row is parsed as
the same program, or it fails on the same line for the same reason. -/
theorem parse_withLineEnds (lexemes : List Lexeme) :
    ParsedAlike (parse lexemes) (parse (withLineEnds lexemes)) := by
  obtain ⟨n, hrows⟩ := sameRows_withLineEnds lexemes
  exact hrows.parse

end Pseudocode
