import Pseudocode.Proofs.Grammar.SingleTokens

/-! # Every expression of the grammar is read

Whatever the grammar derives, the parser reads from the front of a row of tokens and stops where the
derivation does, provided that the rest cannot continue it. The proof follows the derivation. The
parser has a loop for each layer where the grammar groups from the left, so what is shown of a layer
is that its loop, started on the tokens, gets to the tree and has some turns left.

* `ReadsLayer`: the parser of a layer reads the tokens as the expression.
* `Derives.readsLayer`: it does so for what is derived, if it may go as deep as there are tokens.
* `Derives.expression`: the parser of expressions. -/

namespace Pseudocode
set_option autoImplicit false
open Pseudocode.Parser

/-- The parser of the layers below the given number, for expressions nested as deep as the bound. -/
def layer (bound level : Nat) : Parser Expr :=
  binary (prefixed (expressionWithin bound) (bound + 1)) (bound + 1) level

theorem layer_succ (bound level : Nat) :
    layer bound (level + 1) = layer bound level >>= chain (layer bound level) level (bound + 1) :=
  rfl

/-! ## The loop of a layer -/

section Chain
variable {operand : Parser Expr} {level bound : Nat} {left right : Expr} {ls rest : List Lexeme}

theorem chain_stops (h : ∀ op : BinOp, nextToken? rest = some (.op op) → op.level ≠ level) :
    chain operand level bound left rest = .ok (left, rest) := by
  cases bound with
  | zero => rfl
  | succ bound =>
    cases rest with
    | nil => rfl
    | cons lexeme rest =>
      obtain ⟨token, span⟩ := lexeme
      cases token with
      | op op =>
        rw [chain, peek_bind]
        simp only [List.head?_cons, h op rfl, if_false]
        rfl
      | _ => rfl

theorem chain_turn {op : BinOp} {span : Span} (hop : op.level = level)
    (hright : operand ls = .ok (right, rest)) :
    chain operand level (bound + 1) left (⟨.op op, span⟩ :: ls) =
      chain operand level bound (.binary left op right span.line) rest := by
  rw [chain, peek_bind]
  simp only [List.head?_cons, hop, if_true]
  rw [next_bind]
  exact bind_ok hright

end Chain

/-- The parser of a layer reads the tokens as the expression. -/
def ReadsLayer (bound : Nat) : Nat → List Lexeme → Expr → Prop
  | 0, ls, e => ∀ rest, Stops 0 ls rest → layer bound 0 (ls ++ rest) = .ok (e, rest)
  | level + 1, ls, e => ∃ turns ≤ ls.length, ∀ total rest, turns ≤ total → Stops level ls rest →
      (layer bound level >>= chain (layer bound level) level total) (ls ++ rest) =
        chain (layer bound level) level (total - turns) e rest

theorem ReadsLayer.layer {bound level : Nat} {ls rest : List Lexeme} {e : Expr}
    (h : ReadsLayer bound level ls e) (hbound : ls.length ≤ bound + 1)
    (hstops : Stops level ls rest) : layer bound level (ls ++ rest) = .ok (e, rest) := by
  cases level with
  | zero => exact h rest hstops
  | succ level =>
    obtain ⟨turns, hturns, hchain⟩ := h
    rw [layer_succ, hchain _ rest (by omega) (hstops.of_le (Nat.le_succ level))]
    apply chain_stops
    intro op hop
    have hlevel := hstops.op op hop
    omega

section Cases
variable {bound : Nat} {ls rs rest : List Lexeme} {left right : Expr}

theorem ReadsLayer.operand {level : Nat} {e : Expr}
    (h : ReadsLayer bound level ls e) (hbound : ls.length ≤ bound + 1) :
    ReadsLayer bound (level + 1) ls e :=
  ⟨0, Nat.zero_le _, fun _ _ _ hstops => bind_ok (h.layer hbound hstops)⟩

theorem ReadsLayer.binary {level : Nat} {op : BinOp} {span : Span}
    (hleft : ReadsLayer bound (level + 1) ls left) (hop : op.level = level)
    (hright : ReadsLayer bound level rs right) (hrs : rs ≠ [])
    (hbound : (ls ++ ⟨.op op, span⟩ :: rs).length ≤ bound + 1) :
    ReadsLayer bound (level + 1) (ls ++ ⟨.op op, span⟩ :: rs) (.binary left op right span.line) := by
  obtain ⟨turns, hturns, hchain⟩ := hleft
  simp only [List.length_append, List.length_cons] at hbound
  refine ⟨turns + 1, by simp only [List.length_append, List.length_cons]; omega, ?_⟩
  intro total rest htotal hstops
  have hstops' : Stops level rs rest := (Stops.cons_iff hrs).1 ((Stops.append_iff (by simp)).1 hstops)
  -- the left operand may stop here: an operator of this very layer follows
  have hmiddle : Stops level ls (⟨.op op, span⟩ :: rs ++ rest) := by
    refine ⟨fun op' hop' => ?_, fun hparen => ?_⟩
    · cases hop'
      exact Nat.le_of_eq hop.symm
    · cases hparen
  rw [List.append_assoc, hchain total _ (by omega) hmiddle]
  obtain ⟨n, hn⟩ : ∃ n, total - turns = n + 1 := ⟨total - turns - 1, by omega⟩
  rw [hn, List.cons_append, chain_turn hop (hright.layer (by omega) hstops')]
  congr 1
  omega

end Cases

/-! ## Operands -/

section Operands
variable {expression : Parser Expr} {bound : Nat} {ls rest : List Lexeme} {e : Expr} {span : Span}

theorem prefixed_negate :
    prefixed expression (bound + 1) (⟨.op .sub, span⟩ :: ls) =
      (prefixed expression bound >>= fun operand => pure (Expr.unary .negate operand span.line)) ls :=
  rfl

theorem prefixed_not :
    prefixed expression (bound + 1) (⟨.keyword .non, span⟩ :: ls) =
      (prefixed expression bound >>= fun operand => pure (Expr.unary .not operand span.line)) ls :=
  rfl

theorem primary_var {name : String} (h : nextToken? rest ≠ some (.punct .lparen)) :
    primary expression bound (⟨.ident name, span⟩ :: rest) = .ok (.var name span.line, rest) := by
  rw [primary, next_bind]
  simp only [List.head?_cons, List.tail_cons]
  rw [bind_ok (accept_neg h)]
  rfl

theorem primary_call {name : String} {opening : Span} {es : List Expr}
    (hopen : nextToken? ls ≠ some (.punct .rparen))
    (h : itemsToClose expression bound ls = .ok (es, rest)) :
    primary expression bound (⟨.ident name, span⟩ :: ⟨.punct .lparen, opening⟩ :: ls) =
      .ok (.call name es span.line, rest) := by
  rw [primary, next_bind]
  simp only [List.head?_cons, List.tail_cons]
  rw [bind_ok accept_pos, if_pos rfl, bind_ok (accept_neg hopen), if_neg Bool.false_ne_true,
    bind_ok h]
  rfl

theorem primary_group {closing : Span}
    (h : expression ls = .ok (e, ⟨.punct .rparen, closing⟩ :: rest)) :
    primary expression bound (⟨.punct .lparen, span⟩ :: ls) = .ok (e, rest) := by
  rw [primary, next_bind]
  simp only [List.head?_cons, List.tail_cons]
  rw [bind_ok h, bind_ok expect_ok]
  rfl

theorem itemsToClose_last {closing : Span}
    (h : expression ls = .ok (e, ⟨.punct .rparen, closing⟩ :: rest)) :
    itemsToClose expression (bound + 1) ls = .ok ([e], rest) := by
  rw [itemsToClose, bind_ok h]
  rfl

theorem itemsToClose_more {comma : Span} {es : List Expr} {rs : List Lexeme}
    (h : expression ls = .ok (e, ⟨.punct .comma, comma⟩ :: rs))
    (hs : itemsToClose expression bound rs = .ok (es, rest)) :
    itemsToClose expression (bound + 1) ls = .ok (e :: es, rest) := by
  rw [itemsToClose, bind_ok h, next_bind]
  simp only [List.head?_cons, List.tail_cons]
  rw [bind_ok hs]
  rfl

end Operands

/-! ## Following a derivation -/

/-- No operator in front of an operand starts a literal, a name, a call or a group. -/
theorem DerivesPrimary.prefixed_eq {expression : Parser Expr} {bound : Nat} {ls : List Lexeme}
    {e : Expr} (h : DerivesPrimary ls e) (rest : List Lexeme) :
    prefixed expression (bound + 1) (ls ++ rest) = Parser.primary expression bound (ls ++ rest) := by
  cases h <;> rfl

/-- A whole expression that its layers read before a token that is no operator. -/
theorem ReadsLayer.expressionWithin {bound : Nat} {ls rest : List Lexeme} {e : Expr}
    (h : ∀ depth, ls.length ≤ depth + 1 → ReadsLayer depth 5 ls e)
    (hls : Starts ls) (hbound : ls.length ≤ bound) (hstops : Stops 5 ls rest) :
    Parser.expressionWithin bound (ls ++ rest) = .ok (e, rest) := by
  cases bound with
  | zero => exact absurd hbound (Nat.not_le_of_lt hls.length_pos)
  | succ depth => exact (h depth hbound).layer hbound hstops

mutual

theorem Derives.readsLayer {level : Nat} {ls : List Lexeme} {e : Expr} :
    Derives level ls e → ∀ bound, ls.length ≤ bound + 1 → ReadsLayer bound level ls e
  | .prefixed h, bound, hbound => fun rest hstops => h.prefixed bound (bound + 1) hbound hbound hstops
  | .operand h, bound, hbound => (h.readsLayer bound hbound).operand hbound
  | .binary hleft hop hright, bound, hbound => by
    have hlength := hbound
    simp only [List.length_append, List.length_cons] at hlength
    exact (hleft.readsLayer bound (by omega)).binary (BinOp.mem_ofLevel.1 hop)
      (hright.readsLayer bound (by omega)) hright.starts.ne_nil hbound

theorem DerivesPrefixed.prefixed {ls rest : List Lexeme} {e : Expr} :
    DerivesPrefixed ls e → ∀ bound turns, ls.length ≤ bound + 1 → ls.length ≤ turns →
      Stops 0 ls rest → prefixed (expressionWithin bound) turns (ls ++ rest) = .ok (e, rest)
  | .negate h, bound, turns + 1, hbound, hturns, hstops => by
    have hoperand := h.prefixed bound turns (Nat.le_of_succ_le hbound)
      (Nat.le_of_succ_le_succ hturns) ((Stops.cons_iff h.starts.ne_nil).1 hstops)
    rw [List.cons_append, prefixed_negate, bind_ok hoperand]
    rfl
  | .not h, bound, turns + 1, hbound, hturns, hstops => by
    have hoperand := h.prefixed bound turns (Nat.le_of_succ_le hbound)
      (Nat.le_of_succ_le_succ hturns) ((Stops.cons_iff h.starts.ne_nil).1 hstops)
    rw [List.cons_append, prefixed_not, bind_ok hoperand]
    rfl
  | .primary h, _, 0, _, hturns, _ =>
    absurd hturns (Nat.not_le_of_lt h.starts.length_pos)
  | .primary h, bound, turns + 1, hbound, hturns, hstops => by
    rw [h.prefixed_eq]
    exact h.primary bound turns hbound hturns hstops

theorem DerivesPrimary.primary {ls rest : List Lexeme} {e : Expr} :
    DerivesPrimary ls e → ∀ bound turns, ls.length ≤ bound + 1 → ls.length ≤ turns + 1 →
      Stops 0 ls rest → primary (expressionWithin bound) turns (ls ++ rest) = .ok (e, rest)
  | .literal value span, _, _, _, _, _ => rfl
  | .var name span, _, _, _, _, hstops =>
    primary_var fun hparen => hstops.paren hparen name rfl
  | .callNone name span opening closing, _, _, _, _, _ => rfl
  | .call name span opening closing h, bound, turns, hbound, hturns, _ => by
    simp only [List.length_cons, List.length_append, List.length_nil] at hbound hturns
    rw [List.cons_append, List.cons_append, List.append_assoc]
    have hitems := @DerivesList.itemsToClose _ rest _ closing h bound turns (by omega) (by omega)
    exact primary_call ((h.starts.append _).nextToken?_ne rfl) hitems
  | .group opening closing h, bound, turns, hbound, _, _ => by
    simp only [List.length_cons, List.length_append, List.length_nil] at hbound
    rw [List.cons_append, List.append_assoc]
    exact primary_group (ReadsLayer.expressionWithin h.readsLayer h.starts (by omega)
      (Stops.of_punct (by decide)))

theorem DerivesList.itemsToClose {ls rest : List Lexeme} {es : List Expr} {closing : Span} :
    DerivesList ls es → ∀ bound turns, ls.length ≤ bound → ls.length ≤ turns →
      itemsToClose (expressionWithin bound) turns (ls ++ ⟨.punct .rparen, closing⟩ :: rest) =
        .ok (es, rest)
  | .last h, bound, 0, _, hturns =>
    absurd hturns (Nat.not_le_of_lt h.starts.length_pos)
  | .last h, bound, turns + 1, hbound, _ =>
    itemsToClose_last (ReadsLayer.expressionWithin h.readsLayer h.starts hbound
      (Stops.of_punct (by decide)))
  | .more h _, bound, 0, _, hturns =>
    absurd hturns (Nat.not_le_of_lt (h.starts.append _).length_pos)
  | .more h hs, bound, turns + 1, hbound, hturns => by
    simp only [List.length_append, List.length_cons] at hbound hturns
    rw [List.append_assoc]
    exact itemsToClose_more (ReadsLayer.expressionWithin h.readsLayer h.starts (by omega)
      (Stops.of_punct (by decide))) (hs.itemsToClose bound turns (by omega) (by omega))

end

theorem Derives.expression {ls rest : List Lexeme} {e : Expr} (h : Derives 5 ls e)
    (hstops : Stops 5 ls rest) : Parser.expression (ls ++ rest) = .ok (e, rest) := by
  have hexpression : Parser.expression (ls ++ rest) =
      Parser.expressionWithin ((ls ++ rest).length + 1) (ls ++ rest) := get_bind _
  rw [hexpression]
  refine ReadsLayer.expressionWithin h.readsLayer h.starts ?_ hstops
  rw [List.length_append]
  omega

end Pseudocode
