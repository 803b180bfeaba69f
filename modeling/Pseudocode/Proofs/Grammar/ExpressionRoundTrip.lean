import Pseudocode.Proofs.Grammar.Acceptance
import Pseudocode.Proofs.Grammar.Reads

/-! # Reading expressions back

The tokens that are written for an expression derive it in the grammar, up to lines: an operand is in
parentheses exactly if its operator is not of a layer that may stand there. So the parser reads it
back before every token that does not continue an expression. -/

namespace Pseudocode
set_option autoImplicit false
open Pseudocode.Parser

/-! ## What is written is derived -/

theorem DerivesPrimary.derives {ls : List Lexeme} {e : Expr} (h : DerivesPrimary ls e)
    (level : Nat) : Derives level ls e :=
  (Derives.prefixed (.primary h)).lift (Nat.zero_le level)

theorem DerivesPrefixed.unary {ls : List Lexeme} {e : Expr} (op : UnOp) {span : Span}
    (h : DerivesPrefixed ls e) :
    DerivesPrefixed (⟨op.token, span⟩ :: ls) (.unary op e span.line) := by
  cases op with
  | negate => exact .negate h
  | not => exact .not h

mutual

theorem Expr.exists_derives : ∀ (e : Expr) (level : Nat) {ls : List Lexeme},
    ls.map Lexeme.token = e.tokensAt level → ∃ e', Derives level ls e' ∧ e'.unlined = e.unlined
  | .literal value line, level, ls, h => by
    obtain ⟨⟨_, span⟩, rfl, rfl⟩ := List.map_eq_singleton_iff.1 h
    exact ⟨_, (DerivesPrimary.literal value span).derives level, rfl⟩
  | .var name line, level, ls, h => by
    obtain ⟨⟨_, span⟩, rfl, rfl⟩ := List.map_eq_singleton_iff.1 h
    exact ⟨_, (DerivesPrimary.var name span).derives level, rfl⟩
  | .unary op operand line, level, ls, h => by
    obtain ⟨⟨_, span⟩, rest, rfl, rfl, hrest⟩ := List.map_eq_cons_iff.1 h
    obtain ⟨operand', hoperand, heq⟩ := operand.exists_derives 0 hrest
    cases hoperand with
    | prefixed hprefixed =>
      refine ⟨_, (Derives.prefixed (hprefixed.unary op)).lift (Nat.zero_le level), ?_⟩
      rw [Expr.unlined, Expr.unlined, heq]
  | .binary left op right line, level, ls, h => by
    -- the operator and its operands, with or without parentheses around them
    have hbinary : ∀ {ls : List Lexeme},
        ls.map Lexeme.token = left.tokensAt (op.level + 1) ++ .op op :: right.tokensAt op.level →
        ∃ e', Derives (op.level + 1) ls e' ∧ e'.unlined = (Expr.binary left op right line).unlined := by
      intro ls h
      obtain ⟨l₁, l₂, rfl, hleft, hrest⟩ := List.map_eq_append_iff.1 h
      obtain ⟨⟨_, span⟩, l₂, rfl, rfl, hright⟩ := List.map_eq_cons_iff.1 hrest
      obtain ⟨left', hleft', hleq⟩ := left.exists_derives _ hleft
      obtain ⟨right', hright', hreq⟩ := right.exists_derives _ hright
      refine ⟨_, .binary hleft' (BinOp.mem_ofLevel.2 rfl) hright', ?_⟩
      rw [Expr.unlined, Expr.unlined, hleq, hreq]
    rw [Expr.tokensAt] at h
    split at h
    · obtain ⟨e', he', heq⟩ := hbinary h
      exact ⟨e', he'.lift ‹_›, heq⟩
    · obtain ⟨⟨_, opening⟩, rest, rfl, rfl, hrest⟩ := List.map_eq_cons_iff.1 h
      obtain ⟨inner, closing, rfl, hinner, hclosing⟩ := List.map_eq_append_iff.1 hrest
      obtain ⟨⟨_, closing⟩, rfl, rfl⟩ := List.map_eq_singleton_iff.1 hclosing
      obtain ⟨e', he', heq⟩ := hbinary hinner
      exact ⟨e', (DerivesPrimary.group opening closing (he'.lift op.level_lt)).derives level, heq⟩
  | .call name arguments line, level, ls, h => by
    obtain ⟨⟨_, span⟩, rest, rfl, rfl, hrest⟩ := List.map_eq_cons_iff.1 h
    obtain ⟨⟨_, opening⟩, rest, rfl, rfl, htail⟩ := List.map_eq_cons_iff.1 hrest
    obtain ⟨inner, closing, rfl, hinner, hclosing⟩ := List.map_eq_append_iff.1 htail
    obtain ⟨⟨_, closing⟩, rfl, rfl⟩ := List.map_eq_singleton_iff.1 hclosing
    by_cases hnone : arguments = []
    · subst hnone
      obtain rfl := List.map_eq_nil_iff.1 hinner
      exact ⟨_, (DerivesPrimary.callNone name span opening closing).derives level, rfl⟩
    · obtain ⟨es, hes, heq⟩ := exists_derivesList arguments hnone hinner
      refine ⟨_, (DerivesPrimary.call name span opening closing hes).derives level, ?_⟩
      rw [Expr.unlined, Expr.unlined, heq]

theorem exists_derivesList : ∀ (es : List Expr), es ≠ [] → ∀ {ls : List Lexeme},
    ls.map Lexeme.token = commas (tokensEach es) →
      ∃ es', DerivesList ls es' ∧ unlinedExprs es' = unlinedExprs es
  | [], hes, _, _ => absurd rfl hes
  | [e], _, ls, h => by
    rw [tokensEach, tokensEach, commas_singleton] at h
    obtain ⟨e', he', heq⟩ := e.exists_derives BinOp.levels h
    refine ⟨_, .last he', ?_⟩
    rw [unlinedExprs, unlinedExprs, heq, unlinedExprs, unlinedExprs]
  | e :: second :: es, _, ls, h => by
    rw [tokensEach, tokensEach, commas_cons_cons] at h
    obtain ⟨l₁, l₂, rfl, hfirst, hrest⟩ := List.map_eq_append_iff.1 h
    obtain ⟨⟨_, span⟩, l₂, rfl, rfl, htail⟩ := List.map_eq_cons_iff.1 hrest
    obtain ⟨e', he', heq⟩ := e.exists_derives BinOp.levels hfirst
    obtain ⟨es', hes', hseq⟩ := exists_derivesList (second :: es) (List.cons_ne_nil _ _) htail
    refine ⟨_, .more he' hes', ?_⟩
    rw [unlinedExprs, heq, hseq]
    rfl

end

/-! ## What is written is read -/

/-- Whether an expression ends before the token that follows. -/
def endsExpression : Option Token → Bool
  | some (.op _) | some (.punct .lparen) => false
  | _ => true

theorem Stops.of_ends {level : Nat} {ls rest : List Lexeme}
    (h : endsExpression (nextToken? rest) = true) : Stops level ls rest := by
  constructor
  · intro op hop
    rw [hop] at h
    cases h
  · intro hparen
    rw [hparen] at h
    cases h

theorem reads_expression (e : Expr) :
    Reads expression e.tokens (endsExpression · = true) (·.unlined = e.unlined) := by
  intro ls rest hls hrest
  obtain ⟨e', hderives, heq⟩ := e.exists_derives BinOp.levels hls
  exact ⟨e', hderives.expression (Stops.of_ends hrest), heq⟩

theorem Expr.tokens_starts (e : Expr) :
    ∃ first rest, e.tokens = first :: rest ∧ first.startsExpression = true := by
  -- any places will do, since only the tokens matter
  have hplaced : (e.tokens.map fun token => (⟨token, ⟨1, 1⟩⟩ : Lexeme)).map Lexeme.token =
      e.tokens := by
    rw [List.map_map]
    exact List.map_id _
  obtain ⟨e', hderives, -⟩ := e.exists_derives BinOp.levels hplaced
  obtain ⟨first, rest, hls, hfirst⟩ := hderives.starts
  obtain ⟨token, tokens, htokens, rfl, -⟩ := List.map_eq_cons_iff.1 hls
  exact ⟨token, tokens, htokens, hfirst⟩

/-- Expressions in parentheses, after the opening one. -/
theorem reads_arguments (es : List Expr) (follow : Option Token → Prop) :
    Reads (closedList expression) (commas (es.map Expr.tokens) ++ [.punct .rparen]) follow
      (·.map Expr.unlined = es.map Expr.unlined) := by
  refine reads_closedList ?_ ?_ (fun e _ => ?_) fun e _ => reads_expression e
  · rfl
  · rfl
  obtain ⟨first, rest, htokens, hfirst⟩ := e.tokens_starts
  exact ⟨first, rest, htokens, fun h => by rw [h] at hfirst; cases hfirst⟩

end Pseudocode
