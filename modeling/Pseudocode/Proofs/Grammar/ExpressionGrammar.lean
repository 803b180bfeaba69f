import Pseudocode.Proofs.Grammar.Acceptance

/-! # The parser of expressions and the grammar agree

What the parser takes for an expression is one of the grammar, and it stops only where the rest
cannot continue it. Together with the other direction this says what the parser accepts, to the
last token:

* `Yields`: a parser takes expressions of a layer, on rows of tokens up to some length.
* `expression_iff`: the tokens taken are exactly those which derive the result. -/

namespace Pseudocode
set_option autoImplicit false
open Pseudocode.Parser

/-- The front of the row derives the expression in the layers below the given number, and the rest
cannot continue it. -/
def Splits (level : Nat) (ls : List Lexeme) (e : Expr) (rest : List Lexeme) : Prop :=
  ∃ qs, ls = qs ++ rest ∧ Derives level qs e ∧ Stops level qs rest

/-- On rows of tokens that are not longer than the bound, the parser takes expressions of the layers
below the given number. -/
def Yields (level bound : Nat) (p : Parser Expr) : Prop :=
  ∀ ls e rest, ls.length ≤ bound → p ls = .ok (e, rest) → Splits level ls e rest

/-! ## The loop of a layer -/

theorem Stops.succ {level : Nat} {ls rest : List Lexeme} (h : Stops level ls rest)
    (hop : ∀ op : BinOp, nextToken? rest = some (.op op) → op.level ≠ level) :
    Stops (level + 1) ls rest :=
  ⟨fun op hnext => Nat.lt_of_le_of_ne (h.op op hnext) (hop op hnext).symm, h.paren⟩

section Chain
variable {operand : Parser Expr} {level bound : Nat}

theorem chain_splits (hoperand : Yields level bound operand) (turns : Nat) :
    ∀ {left e : Expr} {qs ls rest : List Lexeme}, Derives (level + 1) qs left →
      Stops level qs ls → ls.length ≤ turns → ls.length ≤ bound →
      chain operand level turns left ls = .ok (e, rest) → Splits (level + 1) (qs ++ ls) e rest := by
  induction turns with
  -- as many turns are left as tokens, so the loop does not end for want of turns
  | zero =>
    intro left e qs ls rest hleft hstops hturns _ h
    cases h
    cases List.length_eq_zero_iff.1 (Nat.le_zero.1 hturns)
    exact ⟨qs, rfl, hleft, hstops.succ fun _ hop => by cases hop⟩
  | succ turns ih =>
    intro left e qs ls rest hleft hstops hturns hbound h
    by_cases hturn : ∃ op span rs, ls = ⟨.op op, span⟩ :: rs ∧ op.level = level
    · obtain ⟨op, span, rs, rfl, hop⟩ := hturn
      simp only [List.length_cons] at hturns hbound
      rw [chain, peek_bind] at h
      simp only [List.head?_cons, hop, if_true] at h
      rw [next_bind, List.tail_cons] at h
      obtain ⟨right, middle, hright, hrest⟩ := exists_of_bind_ok h
      obtain ⟨ps, rfl, hps, hmiddle⟩ := hoperand rs right middle (by omega) hright
      simp only [List.length_append] at hturns hbound
      have hbinary : Derives (level + 1) (qs ++ ⟨.op op, span⟩ :: ps)
          (.binary left op right span.line) := .binary hleft (BinOp.mem_ofLevel.2 hop) hps
      have hstops' : Stops level (qs ++ ⟨.op op, span⟩ :: ps) middle :=
        (Stops.append_iff (List.cons_ne_nil _ _)).2 ((Stops.cons_iff hps.starts.ne_nil).2 hmiddle)
      have hsplits := ih hbinary hstops' (by omega) (by omega) hrest
      rwa [List.append_assoc] at hsplits
    · have hother : ∀ op : BinOp, nextToken? ls = some (.op op) → op.level ≠ level := by
        intro op hnext hop
        obtain ⟨span, rs, rfl⟩ := eq_cons_of_nextToken? hnext
        exact hturn ⟨op, span, rs, rfl, hop⟩
      rw [chain_stops hother] at h
      cases h
      exact ⟨qs, rfl, hleft, hstops.succ hother⟩

theorem Yields.bind_chain (hoperand : Yields level bound operand) :
    Yields (level + 1) bound (operand >>= chain operand level bound) := by
  intro ls e rest hbound h
  obtain ⟨left, middle, hleft, hchain⟩ := exists_of_bind_ok h
  obtain ⟨qs, rfl, hqs, hstops⟩ := hoperand ls left middle hbound hleft
  have hlength : middle.length ≤ bound := by
    rw [List.length_append] at hbound
    omega
  exact chain_splits hoperand bound (.operand hqs) hstops hlength hlength hchain

end Chain

/-! ## Operands -/

section Operands
variable {expression : Parser Expr} {bound : Nat}

theorem itemsToClose_derives (hexpression : Yields 5 bound expression) (turns : Nat) :
    ∀ {ls rest : List Lexeme} {es : List Expr}, ls.length ≤ bound →
      itemsToClose expression turns ls = .ok (es, rest) →
      ∃ qs closing, ls = qs ++ ⟨.punct .rparen, closing⟩ :: rest ∧ DerivesList qs es := by
  induction turns with
  | zero =>
    intro ls rest es _ h
    cases h
  | succ turns ih =>
    intro ls rest es hbound h
    rw [itemsToClose] at h
    obtain ⟨e, middle, he, hnext⟩ := exists_of_bind_ok h
    obtain ⟨qs, rfl, hqs, -⟩ := hexpression ls e middle hbound he
    rw [next_bind] at hnext
    cases middle with
    | nil => cases hnext
    | cons lexeme middle =>
      obtain ⟨token, span⟩ := lexeme
      cases token with
      | punct mark =>
        cases mark with
        | comma =>
          obtain ⟨es', rest', hes, hpure⟩ := exists_of_bind_ok hnext
          cases hpure
          simp only [List.length_append, List.length_cons] at hbound
          obtain ⟨rs, closing, hrs, hlist⟩ := ih (show middle.length ≤ bound by omega) hes
          refine ⟨qs ++ ⟨.punct .comma, span⟩ :: rs, closing, ?_, .more hqs hlist⟩
          rw [hrs, List.append_assoc, List.cons_append]
        | rparen =>
          cases hnext
          exact ⟨qs, span, rfl, .last hqs⟩
        | _ => cases hnext
      | _ => cases hnext

theorem primary_splits (hexpression : Yields 5 bound expression) {turns : Nat}
    {ls rest : List Lexeme} {e : Expr} (hbound : ls.length ≤ bound + 1)
    (h : primary expression turns ls = .ok (e, rest)) :
    ∃ qs, ls = qs ++ rest ∧ DerivesPrimary qs e ∧ Stops 0 qs rest := by
  have hclose : ∀ name, Token.punct .rparen ≠ .ident name := fun _ => Token.noConfusion
  rw [primary, next_bind] at h
  cases ls with
  | nil => cases h
  | cons lexeme ls =>
    obtain ⟨token, span⟩ := lexeme
    simp only [List.length_cons] at hbound
    simp only [List.head?_cons, List.tail_cons] at h
    cases token with
    | literal value =>
      cases h
      exact ⟨[_], rfl, .literal value span, Stops.of_last [] fun _ => Token.noConfusion⟩
    | ident name =>
      obtain ⟨isCall, middle, haccept, hcall⟩ := exists_of_bind_ok h
      obtain ⟨rfl, opening, rfl⟩ | ⟨rfl, rfl, hnext⟩ := accept_cases haccept
      · obtain ⟨isEmpty, middle', haccept', hargs⟩ := exists_of_bind_ok hcall
        obtain ⟨rfl, closing, rfl⟩ | ⟨rfl, rfl, -⟩ := accept_cases haccept'
        · cases hargs
          exact ⟨_, rfl, .callNone name span opening closing, Stops.of_last [_, _] hclose⟩
        · obtain ⟨es, rest', hes, hpure⟩ := exists_of_bind_ok hargs
          cases hpure
          simp only [List.length_cons] at hbound
          obtain ⟨qs, closing, rfl, hlist⟩ := itemsToClose_derives hexpression turns (by omega) hes
          refine ⟨_, ?_, .call name span opening closing hlist, ?_⟩
          · simp only [List.cons_append, List.append_assoc, List.nil_append]
          · exact Stops.of_last (_ :: _ :: qs) hclose
      · cases hcall
        refine ⟨[_], rfl, .var name span, fun _ _ => Nat.zero_le _, fun hparen => ?_⟩
        exact absurd hparen hnext
    | punct mark =>
      cases mark with
      | lparen =>
        obtain ⟨inner, middle, hinner, hexpect⟩ := exists_of_bind_ok h
        obtain ⟨u, middle', hclosing, hpure⟩ := exists_of_bind_ok hexpect
        obtain ⟨closing, rfl⟩ := eq_cons_of_expect hclosing
        cases hpure
        obtain ⟨qs, rfl, hqs, -⟩ := hexpression ls e _ (by omega) hinner
        refine ⟨_, ?_, .group span closing hqs, Stops.of_last (_ :: qs) hclose⟩
        simp only [List.cons_append, List.append_assoc, List.nil_append]
      | _ => cases h
    | _ => cases h

theorem prefixed_splits (hexpression : Yields 5 bound expression) (turns : Nat) :
    ∀ {ls rest : List Lexeme} {e : Expr}, ls.length ≤ bound + 1 →
      prefixed expression turns ls = .ok (e, rest) →
      ∃ qs, ls = qs ++ rest ∧ DerivesPrefixed qs e ∧ Stops 0 qs rest := by
  induction turns with
  | zero =>
    intro ls rest e _ h
    cases h
  | succ turns ih =>
    intro ls rest e hbound h
    -- what starts with neither sign is left to `primary`
    have hprimary : ∀ ls, ls.length ≤ bound + 1 → primary expression turns ls = .ok (e, rest) →
        ∃ qs, ls = qs ++ rest ∧ DerivesPrefixed qs e ∧ Stops 0 qs rest := by
      intro ls hbound h
      obtain ⟨qs, hls, hqs, hstops⟩ := primary_splits hexpression hbound h
      exact ⟨qs, hls, .primary hqs, hstops⟩
    cases ls with
    | nil => exact hprimary [] hbound h
    | cons lexeme ls =>
      obtain ⟨token, span⟩ := lexeme
      cases token with
      | op op =>
        cases op with
        | sub =>
          rw [prefixed_negate] at h
          obtain ⟨operand, middle, hoperand, hpure⟩ := exists_of_bind_ok h
          cases hpure
          obtain ⟨qs, rfl, hqs, hstops⟩ := ih (Nat.le_of_succ_le hbound) hoperand
          exact ⟨_, rfl, .negate hqs, (Stops.cons_iff hqs.starts.ne_nil).2 hstops⟩
        | _ => exact hprimary _ hbound h
      | keyword word =>
        cases word with
        | non =>
          rw [prefixed_not] at h
          obtain ⟨operand, middle, hoperand, hpure⟩ := exists_of_bind_ok h
          cases hpure
          obtain ⟨qs, rfl, hqs, hstops⟩ := ih (Nat.le_of_succ_le hbound) hoperand
          exact ⟨_, rfl, .not hqs, (Stops.cons_iff hqs.starts.ne_nil).2 hstops⟩
        | _ => exact hprimary _ hbound h
      | _ => exact hprimary _ hbound h

end Operands

theorem yields_layer {bound : Nat} (h : Yields 5 bound (expressionWithin bound)) (level : Nat) :
    Yields level (bound + 1) (layer bound level) := by
  induction level with
  | zero =>
    intro ls e rest hbound hlayer
    obtain ⟨qs, rfl, hqs, hstops⟩ := prefixed_splits h (bound + 1) hbound hlayer
    exact ⟨qs, rfl, .prefixed hqs, hstops⟩
  | succ level ih => exact ih.bind_chain

theorem yields_expressionWithin (bound : Nat) : Yields 5 bound (expressionWithin bound) := by
  induction bound with
  | zero =>
    intro ls e rest _ h
    cases h
  | succ bound ih => exact yields_layer ih 5

/-! ## Both directions -/

/-- An expression and the rest are what the parser gives exactly if the tokens before the rest
derive the expression and the rest starts neither with an operator nor, after a name, with the
parenthesis of a call. -/
theorem expression_iff (ls rest : List Lexeme) (e : Expr) :
    expression ls = .ok (e, rest) ↔
      ∃ taken, ls = taken ++ rest ∧ Derives 5 taken e ∧
        (∀ op : BinOp, nextToken? rest ≠ some (.op op)) ∧
        (nextToken? rest = some (.punct .lparen) →
          ∀ name : String, taken.getLast?.map Lexeme.token ≠ some (.ident name)) := by
  constructor
  · intro h
    obtain ⟨taken, htaken, hderives, hstops⟩ :=
      yields_expressionWithin (ls.length + 1) ls e rest (Nat.le_succ _) h
    refine ⟨taken, htaken, hderives, fun op hop => ?_, hstops.paren⟩
    exact Nat.not_le_of_lt op.level_lt (hstops.op op hop)
  · rintro ⟨taken, rfl, hderives, hop, hparen⟩
    exact hderives.expression ⟨fun op h => absurd h (hop op), hparen⟩

end Pseudocode
