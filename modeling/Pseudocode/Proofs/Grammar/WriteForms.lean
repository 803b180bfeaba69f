import Pseudocode.Proofs.Grammar.ExpressionRoundTrip

/-! # `ECRIRE` with and without parentheses

The values of `ECRIRE` may stand in parentheses or not, and which of the two is decided by the first
token after the word. So values without parentheses are read as they are meant as long as the first of
them does not begin with a group of its own that is not the whole list: the group is then taken for
all the values, and what follows it is left.

* `Derives.elsewhere`: what the grammar derives does not depend on where the tokens stand.
* `DerivesList.splits_group`: a row that begins with a parenthesis begins with a group.
* `write_parentheses`: both forms of the statement. -/

namespace Pseudocode
set_option autoImplicit false
open Pseudocode.Parser

/-! ## The same tokens elsewhere -/

mutual

theorem Derives.elsewhere {level : Nat} {ls : List Lexeme} {e : Expr} :
    Derives level ls e → ∀ {ls' : List Lexeme}, ls'.map Lexeme.token = ls.map Lexeme.token →
      ∃ e', Derives level ls' e' ∧ e'.unlined = e.unlined
  | .prefixed h, ls', hsame => by
    obtain ⟨e', he', heq⟩ := h.elsewhere hsame
    exact ⟨e', .prefixed he', heq⟩
  | .operand h, ls', hsame => by
    obtain ⟨e', he', heq⟩ := h.elsewhere hsame
    exact ⟨e', .operand he', heq⟩
  | .binary hleft hop hright, ls', hsame => by
    rw [List.map_append, List.map_cons] at hsame
    obtain ⟨l₁, l₂, rfl, hl₁, hrest⟩ := List.map_eq_append_iff.1 hsame
    obtain ⟨⟨_, span⟩, l₂, rfl, rfl, hl₂⟩ := List.map_eq_cons_iff.1 hrest
    obtain ⟨left', hleft', hleq⟩ := hleft.elsewhere hl₁
    obtain ⟨right', hright', hreq⟩ := hright.elsewhere hl₂
    refine ⟨_, .binary hleft' hop hright', ?_⟩
    rw [Expr.unlined, Expr.unlined, hleq, hreq]

theorem DerivesPrefixed.elsewhere {ls : List Lexeme} {e : Expr} :
    DerivesPrefixed ls e → ∀ {ls' : List Lexeme}, ls'.map Lexeme.token = ls.map Lexeme.token →
      ∃ e', DerivesPrefixed ls' e' ∧ e'.unlined = e.unlined
  | .negate h, ls', hsame => by
    rw [List.map_cons] at hsame
    obtain ⟨⟨_, span⟩, l, rfl, rfl, hl⟩ := List.map_eq_cons_iff.1 hsame
    obtain ⟨e', he', heq⟩ := h.elsewhere hl
    refine ⟨_, .negate he', ?_⟩
    rw [Expr.unlined, Expr.unlined, heq]
  | .not h, ls', hsame => by
    rw [List.map_cons] at hsame
    obtain ⟨⟨_, span⟩, l, rfl, rfl, hl⟩ := List.map_eq_cons_iff.1 hsame
    obtain ⟨e', he', heq⟩ := h.elsewhere hl
    refine ⟨_, .not he', ?_⟩
    rw [Expr.unlined, Expr.unlined, heq]
  | .primary h, ls', hsame => by
    obtain ⟨e', he', heq⟩ := h.elsewhere hsame
    exact ⟨e', .primary he', heq⟩

theorem DerivesPrimary.elsewhere {ls : List Lexeme} {e : Expr} :
    DerivesPrimary ls e → ∀ {ls' : List Lexeme}, ls'.map Lexeme.token = ls.map Lexeme.token →
      ∃ e', DerivesPrimary ls' e' ∧ e'.unlined = e.unlined
  | .literal value _, ls', hsame => by
    obtain ⟨⟨_, span⟩, rfl, rfl⟩ := List.map_eq_singleton_iff.1 hsame
    exact ⟨_, .literal value span, rfl⟩
  | .var name _, ls', hsame => by
    obtain ⟨⟨_, span⟩, rfl, rfl⟩ := List.map_eq_singleton_iff.1 hsame
    exact ⟨_, .var name span, rfl⟩
  | .callNone name _ _ _, ls', hsame => by
    obtain ⟨⟨_, span⟩, l, rfl, rfl, hl⟩ := List.map_eq_cons_iff.1 hsame
    obtain ⟨⟨_, opening⟩, l, rfl, rfl, hclosing⟩ := List.map_eq_cons_iff.1 hl
    obtain ⟨⟨_, closing⟩, rfl, rfl⟩ := List.map_eq_singleton_iff.1 hclosing
    exact ⟨_, .callNone name span opening closing, rfl⟩
  | .call name _ _ _ h, ls', hsame => by
    rw [List.map_cons, List.map_cons, List.map_append] at hsame
    obtain ⟨⟨_, span⟩, l, rfl, rfl, hl⟩ := List.map_eq_cons_iff.1 hsame
    obtain ⟨⟨_, opening⟩, l, rfl, rfl, htail⟩ := List.map_eq_cons_iff.1 hl
    obtain ⟨inner, l, rfl, hinner, hclosing⟩ := List.map_eq_append_iff.1 htail
    obtain ⟨⟨_, closing⟩, rfl, rfl⟩ := List.map_eq_singleton_iff.1 hclosing
    obtain ⟨es', hes', heq⟩ := h.elsewhere hinner
    refine ⟨_, .call name span opening closing hes', ?_⟩
    rw [Expr.unlined, Expr.unlined, heq]
  | .group _ _ h, ls', hsame => by
    rw [List.map_cons, List.map_append] at hsame
    obtain ⟨⟨_, opening⟩, l, rfl, rfl, htail⟩ := List.map_eq_cons_iff.1 hsame
    obtain ⟨inner, l, rfl, hinner, hclosing⟩ := List.map_eq_append_iff.1 htail
    obtain ⟨⟨_, closing⟩, rfl, rfl⟩ := List.map_eq_singleton_iff.1 hclosing
    obtain ⟨e', he', heq⟩ := h.elsewhere hinner
    exact ⟨e', .group opening closing he', heq⟩

theorem DerivesList.elsewhere {ls : List Lexeme} {es : List Expr} :
    DerivesList ls es → ∀ {ls' : List Lexeme}, ls'.map Lexeme.token = ls.map Lexeme.token →
      ∃ es', DerivesList ls' es' ∧ unlinedExprs es' = unlinedExprs es
  | .last h, ls', hsame => by
    obtain ⟨e', he', heq⟩ := h.elsewhere hsame
    exact ⟨_, .last he', congrArg (· :: []) heq⟩
  | .more h hs, ls', hsame => by
    rw [List.map_append, List.map_cons] at hsame
    obtain ⟨l₁, l₂, rfl, hl₁, hrest⟩ := List.map_eq_append_iff.1 hsame
    obtain ⟨⟨_, span⟩, l₂, rfl, rfl, hl₂⟩ := List.map_eq_cons_iff.1 hrest
    obtain ⟨e', he', heq⟩ := h.elsewhere hl₁
    obtain ⟨es', hes', heqs⟩ := hs.elsewhere hl₂
    refine ⟨_, .more he' hes', ?_⟩
    rw [unlinedExprs, unlinedExprs, heq, heqs]

end

/-! ## Lists of expressions -/

/-- A comma or a closing parenthesis follows every expression of a list in parentheses. -/
theorem DerivesList.itemsToClose_expression {ls rest : List Lexeme} {es : List Expr}
    {closing : Span} : DerivesList ls es → ∀ turns, ls.length ≤ turns →
      Parser.itemsToClose expression turns (ls ++ ⟨.punct .rparen, closing⟩ :: rest) = .ok (es, rest)
  | .last h, 0, hturns => absurd hturns (Nat.not_le_of_lt h.starts.length_pos)
  | .last h, turns + 1, _ => itemsToClose_last (h.expression (Stops.of_punct (by decide)))
  | .more h _, 0, hturns => absurd hturns (Nat.not_le_of_lt (h.starts.append _).length_pos)
  | .more h hs, turns + 1, hturns => by
    simp only [List.length_append, List.length_cons] at hturns
    rw [List.append_assoc]
    exact itemsToClose_more (h.expression (Stops.of_punct (by decide)))
      (hs.itemsToClose_expression turns (by omega))

theorem DerivesList.closedList {ls : List Lexeme} {es : List Expr} (h : DerivesList ls es)
    (closing : Span) (rest : List Lexeme) :
    Parser.closedList expression (ls ++ ⟨.punct .rparen, closing⟩ :: rest) = .ok (es, rest) := by
  unfold Parser.closedList
  rw [bind_ok (accept_neg ((h.starts.append _).nextToken?_ne rfl)), if_neg Bool.false_ne_true,
    get_bind]
  refine h.itemsToClose_expression _ ?_
  rw [List.length_append]
  omega

/-- An open list ends before a token that continues neither an expression nor the list. -/
theorem DerivesList.itemsWithCommas {ls rest : List Lexeme} {es : List Expr}
    (hends : endsExpression (nextToken? rest) = true)
    (hcomma : nextToken? rest ≠ some (.punct .comma)) :
    DerivesList ls es → ∀ bound, ls.length ≤ bound →
      Parser.itemsWithCommas expression bound (ls ++ rest) = .ok (es, rest)
  | .last h, 0, hbound => absurd hbound (Nat.not_le_of_lt h.starts.length_pos)
  | .last h, bound + 1, _ => by
    rw [Parser.itemsWithCommas, bind_ok (h.expression (Stops.of_ends hends)),
      bind_ok (accept_neg hcomma)]
    rfl
  | .more h _, 0, hbound => absurd hbound (Nat.not_le_of_lt (h.starts.append _).length_pos)
  | .more h hs, bound + 1, hbound => by
    simp only [List.length_append, List.length_cons] at hbound
    rw [List.append_assoc, List.cons_append, Parser.itemsWithCommas,
      bind_ok (h.expression (Stops.of_punct (by decide))), bind_ok accept_pos, if_pos rfl,
      bind_ok (hs.itemsWithCommas hends hcomma bound (by omega))]
    rfl

theorem DerivesList.openList {ls rest : List Lexeme} {es : List Expr} (h : DerivesList ls es)
    (hends : endsExpression (nextToken? rest) = true)
    (hcomma : nextToken? rest ≠ some (.punct .comma)) :
    Parser.openList expression (ls ++ rest) = .ok (es, rest) := by
  unfold Parser.openList
  rw [get_bind]
  refine h.itemsWithCommas hends hcomma _ ?_
  rw [List.length_append]
  omega

/-! ## Groups -/

/-- A row begins with a group in parentheses, and goes on behind it. -/
def BeginsWithGroup (ls : List Lexeme) (e : Expr) (after : List Lexeme) : Prop :=
  ∃ opening inner closing, Derives 5 inner e ∧
    ls = ⟨.punct .lparen, opening⟩ :: (inner ++ ⟨.punct .rparen, closing⟩ :: after)

theorem BeginsWithGroup.append {ls after : List Lexeme} {e : Expr} (h : BeginsWithGroup ls e after)
    (rest : List Lexeme) : BeginsWithGroup (ls ++ rest) e (after ++ rest) := by
  obtain ⟨opening, inner, closing, hinner, rfl⟩ := h
  refine ⟨opening, inner, closing, hinner, ?_⟩
  simp only [List.cons_append, List.append_assoc]

theorem DerivesPrimary.begins {ls : List Lexeme} {e : Expr} (h : DerivesPrimary ls e)
    (hnext : nextToken? ls = some (.punct .lparen)) : BeginsWithGroup ls e [] := by
  cases h with
  | group opening closing h => exact ⟨opening, _, closing, h, rfl⟩
  | literal | var | callNone | call => cases hnext

/-- What begins with a parenthesis begins with a group, and has its value unless it goes on. -/
theorem Derives.begins {level : Nat} {ls : List Lexeme} {e : Expr} :
    Derives level ls e → nextToken? ls = some (.punct .lparen) →
      ∃ g after, BeginsWithGroup ls g after ∧ (after = [] → e = g)
  | .prefixed (.primary h), hnext => ⟨e, [], h.begins hnext, fun _ => rfl⟩
  | .prefixed (.negate _), hnext | .prefixed (.not _), hnext => by cases hnext
  | .operand h, hnext => h.begins hnext
  | .binary hleft _ _, hnext => by
    obtain ⟨first, tail, rfl, -⟩ := hleft.starts
    obtain ⟨g, after, hbegins, -⟩ := hleft.begins hnext
    exact ⟨g, _, hbegins.append _, fun hnil => by simp at hnil⟩

theorem DerivesList.begins {ls : List Lexeme} {es : List Expr} (h : DerivesList ls es)
    (hnext : nextToken? ls = some (.punct .lparen)) :
    ∃ g after, BeginsWithGroup ls g after ∧ (after = [] → es = [g]) := by
  cases h with
  | last h =>
    obtain ⟨g, after, hbegins, heq⟩ := h.begins hnext
    exact ⟨g, after, hbegins, fun hnil => by rw [heq hnil]⟩
  | more h _ =>
    obtain ⟨first, tail, rfl, -⟩ := h.starts
    obtain ⟨g, after, hbegins, -⟩ := h.begins hnext
    exact ⟨g, _, hbegins.append _, fun hnil => by simp at hnil⟩

/-! ## The statement -/

section Statement
variable {ls rest : List Lexeme} {es : List Expr} (h : DerivesList ls es) (line : Nat)
include h

/-- What stands in the parentheses is read, whatever follows. -/
theorem writeValues_closed (opening closing : Span) (rest : List Lexeme) :
    writeValues line (⟨.punct .lparen, opening⟩ :: (ls ++ ⟨.punct .rparen, closing⟩ :: rest)) =
      .ok (.write es line, rest) := by
  unfold writeValues
  rw [bind_ok accept_pos, if_pos rfl, bind_ok (h.closedList closing rest)]
  rfl

theorem writeValues_open (hnext : nextToken? ls ≠ some (.punct .lparen))
    (hends : endsExpression (nextToken? rest) = true)
    (hcomma : nextToken? rest ≠ some (.punct .comma)) :
    writeValues line (ls ++ rest) = .ok (.write es line, rest) := by
  have hnext' : nextToken? (ls ++ rest) ≠ some (.punct .lparen) := by
    obtain ⟨first, tail, rfl, -⟩ := h.starts
    exact hnext
  unfold writeValues
  rw [bind_ok (accept_neg hnext'), if_neg Bool.false_ne_true, bind_ok (h.openList hends hcomma)]
  rfl

end Statement

theorem BeginsWithGroup.writeValues {ls after : List Lexeme} {e : Expr}
    (h : BeginsWithGroup ls e after) (line : Nat) (rest : List Lexeme) :
    Parser.writeValues line (ls ++ rest) = .ok (.write [e] line, after ++ rest) := by
  obtain ⟨opening, inner, closing, hinner, rfl⟩ := h
  rw [List.cons_append, List.append_assoc, List.cons_append]
  exact writeValues_closed (.last hinner) line opening closing (after ++ rest)

/-- The values of `ECRIRE` in parentheses are always read. Without them the statement is the same
exactly if the values do not begin with a group in parentheses that goes on: of such values only the
group is read, and what follows it is left. -/
theorem write_parentheses (routine : Option RoutineKind) {ls ls' : List Lexeme} {es : List Expr}
    (h : DerivesList ls es) (hsame : ls'.map Lexeme.token = ls.map Lexeme.token)
    (word word' opening closing line line' : Span) (rest rest' : List Lexeme) :
    let bare := statement routine (⟨.keyword .ecrire, word⟩ :: (ls ++ ⟨.newline, line⟩ :: rest))
    let enclosed := statement routine (⟨.keyword .ecrire, word'⟩ :: ⟨.punct .lparen, opening⟩ ::
      (ls' ++ ⟨.punct .rparen, closing⟩ :: ⟨.newline, line'⟩ :: rest'))
    (∃ es', enclosed = .ok (.write es' word'.line, ⟨.newline, line'⟩ :: rest') ∧
      es'.map Expr.unlined = es.map Expr.unlined) ∧
    (bare = .ok (.write es word.line, ⟨.newline, line⟩ :: rest) ↔
      ∀ g after, BeginsWithGroup ls g after → after = []) ∧
    ∀ g after, BeginsWithGroup ls g after →
      bare = .ok (.write [g] word.line, after ++ ⟨.newline, line⟩ :: rest) := by
  intro bare enclosed
  have hgroup (g : Expr) (after : List Lexeme) (hbegins : BeginsWithGroup ls g after) :
      bare = .ok (.write [g] word.line, after ++ ⟨.newline, line⟩ :: rest) :=
    hbegins.writeValues word.line _
  refine ⟨?_, ⟨fun hbare g after hbegins => ?_, fun hnone => ?_⟩, hgroup⟩
  · obtain ⟨es', hes', heq⟩ := h.elsewhere hsame
    rw [unlinedExprs_eq_map, unlinedExprs_eq_map] at heq
    exact ⟨es', writeValues_closed hes' word'.line opening closing _, heq⟩
  · rw [hgroup g after hbegins, Except.ok.injEq, Prod.mk.injEq] at hbare
    exact List.append_left_eq_self.1 hbare.2
  · by_cases hnext : nextToken? ls = some (.punct .lparen)
    · obtain ⟨g, after, hbegins, heq⟩ := h.begins hnext
      obtain rfl := hnone g after hbegins
      rw [heq rfl]
      exact hgroup g [] hbegins
    · exact writeValues_open h word.line hnext rfl nofun

/-- The values `x, (1)`, on the first line and on the second: it is not the group that they begin
with. -/
theorem write_parentheses_last_group :
    let placed (line : Nat) (token : Token) : Lexeme := ⟨token, ⟨line, 1⟩⟩
    let tokens := [Token.ident "x", .punct .comma, .punct .lparen, .literal (.integer 1),
      .punct .rparen]
    let es := [Expr.var "x" 1, .literal (.integer 1) 1]
    DerivesList (tokens.map (placed 1)) es ∧
    (tokens.map (placed 2)).map Lexeme.token = (tokens.map (placed 1)).map Lexeme.token ∧
    (∃ es', statement none (placed 2 (.keyword .ecrire) :: placed 2 (.punct .lparen) ::
        (tokens.map (placed 2) ++ placed 2 (.punct .rparen) :: [placed 2 .newline])) =
        .ok (.write es' 2, [placed 2 .newline]) ∧ es'.map Expr.unlined = es.map Expr.unlined) ∧
    statement none (placed 1 (.keyword .ecrire) :: (tokens.map (placed 1) ++ [placed 1 .newline])) =
      .ok (.write es 1, [placed 1 .newline]) := by
  intro placed tokens es
  have hone : Derives 5 [placed 1 (.literal (.integer 1))] (.literal (.integer 1) 1) :=
    (DerivesPrimary.literal _ ⟨1, 1⟩).derives 5
  have hlist : DerivesList (tokens.map (placed 1)) es :=
    .more ((DerivesPrimary.var "x" ⟨1, 1⟩).derives 5)
      (.last ((DerivesPrimary.group ⟨1, 1⟩ ⟨1, 1⟩ hone).derives 5))
  have hsame : (tokens.map (placed 2)).map Lexeme.token =
      (tokens.map (placed 1)).map Lexeme.token := rfl
  obtain ⟨henclosed, hbare, -⟩ :=
    write_parentheses none hlist hsame ⟨1, 1⟩ ⟨2, 1⟩ ⟨2, 1⟩ ⟨2, 1⟩ ⟨1, 1⟩ ⟨2, 1⟩ [] []
  refine ⟨hlist, hsame, henclosed, hbare.2 ?_⟩
  rintro g after ⟨opening, inner, closing, -, hls⟩
  have hfirst : some (Token.ident "x") = some (.punct .lparen) := congrArg nextToken? hls
  cases hfirst

/-- The value `(1 + 2) * 3`: without parentheses around it, only `1 + 2` is written, and the
product sign is left. -/
theorem write_parentheses_first_group :
    let placed (token : Token) : Lexeme := ⟨token, ⟨1, 1⟩⟩
    let ls := [Token.punct .lparen, .literal (.integer 1), .op .add, .literal (.integer 2),
      .punct .rparen, .op .mul, .literal (.integer 3)].map placed
    let sum := Expr.binary (.literal (.integer 1) 1) .add (.literal (.integer 2) 1) 1
    let product := Expr.binary sum .mul (.literal (.integer 3) 1) 1
    DerivesList ls [product] ∧
    statement none (placed (.keyword .ecrire) :: placed (.punct .lparen) ::
        (ls ++ placed (.punct .rparen) :: placed .newline :: [])) =
      .ok (.write [product] 1, [placed .newline]) ∧
    statement none (placed (.keyword .ecrire) :: (ls ++ placed .newline :: [])) =
      .ok (.write [sum] 1, [placed (.op .mul), placed (.literal (.integer 3)), placed .newline]) := by
  intro placed ls sum product
  have hnumber (n : Entier) (level : Nat) :
      Derives level [placed (.literal (.integer n))] (.literal (.integer n) 1) :=
    (DerivesPrimary.literal _ ⟨1, 1⟩).derives level
  have hsum : Derives 2 ([Token.literal (.integer 1), .op .add, .literal (.integer 2)].map placed)
      sum := .binary (hnumber 1 2) (by decide) (hnumber 2 1)
  have hproduct : Derives 1 ls product :=
    .binary ((DerivesPrimary.group ⟨1, 1⟩ ⟨1, 1⟩ (hsum.lift (by decide))).derives 1) (by decide)
      (hnumber 3 0)
  exact ⟨.last (hproduct.lift (by decide)), rfl, rfl⟩

end Pseudocode
