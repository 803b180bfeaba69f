import Pseudocode.Grammar.Expression

/-! # The grammar of expressions

The layers of operators between operands, from the loosest to the tightest, are

    or := and (OU and)*
    and := comparison (ET comparison)*
    comparison := sum ((= | <> | < | > | <= | >=) sum)*
    sum := product ((+ | -) product)*
    product := prefixed ((* | / | DIV | MOD) prefixed)*
    prefixed := (- | NON) prefixed | primary
    primary := literal | name | name "(" [or ("," or)*] ")" | "(" or ")"

A layer is a number here: `Derives 5` is `or`, `Derives 1` is `product` and `Derives 0` is `prefixed`.
A layer groups from the left, so its rule is written with the layer itself on the left. The tree has
no node for a pair of parentheses, and the line of each node is that of the token which makes it. -/

namespace Pseudocode
set_option autoImplicit false

/-- The operators of a layer, the tightest layer first. -/
def BinOp.ofLevel : Nat → List BinOp
  | 0 => [.mul, .div, .intDiv, .mod]
  | 1 => [.add, .sub]
  | 2 => [.equal, .notEqual, .less, .greater, .lessEqual, .greaterEqual]
  | 3 => [.and]
  | 4 => [.or]
  | _ => []

theorem BinOp.mem_ofLevel {op : BinOp} {level : Nat} : op ∈ ofLevel level ↔ op.level = level := by
  constructor
  · intro h
    unfold ofLevel at h
    split at h <;> simp only [List.mem_cons, List.not_mem_nil, or_false] at h
    · rcases h with rfl | rfl | rfl | rfl <;> rfl
    · rcases h with rfl | rfl <;> rfl
    · rcases h with rfl | rfl | rfl | rfl | rfl | rfl <;> rfl
    · rw [h]; rfl
    · rw [h]; rfl
  · rintro rfl
    cases op <;> decide

theorem BinOp.level_lt (op : BinOp) : op.level < levels := by
  cases op <;> decide

mutual

/-- The tokens are an expression of the layers below the given number. -/
inductive Derives : Nat → List Lexeme → Expr → Prop where
  | prefixed {ls : List Lexeme} {e : Expr} : DerivesPrefixed ls e → Derives 0 ls e
  | operand {level : Nat} {ls : List Lexeme} {e : Expr} :
      Derives level ls e → Derives (level + 1) ls e
  | binary {level : Nat} {ls rs : List Lexeme} {left right : Expr} {op : BinOp} {span : Span} :
      Derives (level + 1) ls left → op ∈ BinOp.ofLevel level → Derives level rs right →
      Derives (level + 1) (ls ++ ⟨.op op, span⟩ :: rs) (.binary left op right span.line)

inductive DerivesPrefixed : List Lexeme → Expr → Prop where
  | negate {ls : List Lexeme} {e : Expr} {span : Span} :
      DerivesPrefixed ls e → DerivesPrefixed (⟨.op .sub, span⟩ :: ls) (.unary .negate e span.line)
  | not {ls : List Lexeme} {e : Expr} {span : Span} :
      DerivesPrefixed ls e → DerivesPrefixed (⟨.keyword .non, span⟩ :: ls) (.unary .not e span.line)
  | primary {ls : List Lexeme} {e : Expr} : DerivesPrimary ls e → DerivesPrefixed ls e

inductive DerivesPrimary : List Lexeme → Expr → Prop where
  | literal (value : Literal) (span : Span) :
      DerivesPrimary [⟨.literal value, span⟩] (.literal value span.line)
  | var (name : String) (span : Span) : DerivesPrimary [⟨.ident name, span⟩] (.var name span.line)
  | callNone (name : String) (span opening closing : Span) :
      DerivesPrimary [⟨.ident name, span⟩, ⟨.punct .lparen, opening⟩, ⟨.punct .rparen, closing⟩]
        (.call name [] span.line)
  | call {ls : List Lexeme} {arguments : List Expr} (name : String) (span opening closing : Span) :
      DerivesList ls arguments →
      DerivesPrimary (⟨.ident name, span⟩ :: ⟨.punct .lparen, opening⟩ ::
        (ls ++ [⟨.punct .rparen, closing⟩])) (.call name arguments span.line)
  | group {ls : List Lexeme} {e : Expr} (opening closing : Span) :
      Derives 5 ls e →
      DerivesPrimary (⟨.punct .lparen, opening⟩ :: (ls ++ [⟨.punct .rparen, closing⟩])) e

/-- One or more expressions with commas between them. -/
inductive DerivesList : List Lexeme → List Expr → Prop where
  | last {ls : List Lexeme} {e : Expr} : Derives 5 ls e → DerivesList ls [e]
  | more {ls rs : List Lexeme} {e : Expr} {es : List Expr} {span : Span} :
      Derives 5 ls e → DerivesList rs es →
      DerivesList (ls ++ ⟨.punct .comma, span⟩ :: rs) (e :: es)

end

theorem Derives.lift {low high : Nat} {ls : List Lexeme} {e : Expr} (h : Derives low ls e)
    (hle : low ≤ high) : Derives high ls e := by
  induction hle with
  | refl => exact h
  | step _ ih => exact .operand ih

/-! ## Where an expression starts and ends -/

/-- The token that comes next, if there is one. -/
def nextToken? (ls : List Lexeme) : Option Token := ls.head?.map Lexeme.token

/-- The first token is one that an expression may start with. -/
def Starts (ls : List Lexeme) : Prop :=
  ∃ first rest, ls = first :: rest ∧ first.token.startsExpression = true

namespace Starts
variable {ls : List Lexeme}

theorem append (h : Starts ls) (rest : List Lexeme) : Starts (ls ++ rest) := by
  obtain ⟨first, middle, rfl, hfirst⟩ := h
  exact ⟨first, middle ++ rest, rfl, hfirst⟩

theorem ne_nil (h : Starts ls) : ls ≠ [] := by
  obtain ⟨first, rest, rfl, _⟩ := h
  exact List.cons_ne_nil first rest

theorem length_pos (h : Starts ls) : 0 < ls.length := List.length_pos_iff.2 h.ne_nil

theorem nextToken?_ne {token : Token} (h : Starts ls) (htoken : token.startsExpression = false) :
    nextToken? ls ≠ some token := by
  obtain ⟨first, rest, rfl, hfirst⟩ := h
  intro hnext
  cases hnext
  rw [hfirst] at htoken
  cases htoken

end Starts

theorem DerivesPrimary.starts {ls : List Lexeme} {e : Expr} (h : DerivesPrimary ls e) :
    Starts ls := by
  cases h <;> exact ⟨_, _, rfl, rfl⟩

theorem DerivesPrefixed.starts {ls : List Lexeme} {e : Expr} (h : DerivesPrefixed ls e) :
    Starts ls := by
  cases h with
  | negate _ | not _ => exact ⟨_, _, rfl, rfl⟩
  | primary h => exact h.starts

theorem Derives.starts {level : Nat} {ls : List Lexeme} {e : Expr} :
    Derives level ls e → Starts ls
  | .prefixed h => h.starts
  | .operand h => h.starts
  | .binary h _ _ => h.starts.append _

theorem DerivesList.starts {ls : List Lexeme} {es : List Expr} (h : DerivesList ls es) :
    Starts ls := by
  cases h with
  | last h => exact h.starts
  | more h _ => exact h.starts.append _

/-- The tokens cannot be continued by the rest: it does not start with an operator of a layer below
the given number, nor with the parenthesis that would make a call of a name at their end. -/
structure Stops (level : Nat) (ls rest : List Lexeme) : Prop where
  op : ∀ op : BinOp, nextToken? rest = some (.op op) → level ≤ op.level
  paren : nextToken? rest = some (.punct .lparen) →
    ∀ name : String, ls.getLast?.map Lexeme.token ≠ some (.ident name)

namespace Stops
variable {level : Nat} {ls rs rest : List Lexeme}

theorem of_le {level' : Nat} (h : Stops level ls rest) (hle : level' ≤ level) :
    Stops level' ls rest :=
  ⟨fun op hop => Nat.le_trans hle (h.op op hop), h.paren⟩

/-- Only the last of several tokens decides. -/
theorem append_iff (hrs : rs ≠ []) : Stops level (ls ++ rs) rest ↔ Stops level rs rest := by
  have hlast : (ls ++ rs).getLast? = rs.getLast? := by
    rw [List.getLast?_append, Option.or_of_isSome (by simpa using hrs)]
  constructor
  · exact fun h => ⟨h.op, hlast ▸ h.paren⟩
  · exact fun h => ⟨h.op, hlast ▸ h.paren⟩

theorem cons_iff {lexeme : Lexeme} (hrs : rs ≠ []) :
    Stops level (lexeme :: rs) rest ↔ Stops level rs rest :=
  @append_iff level [lexeme] rs rest hrs

/-- Any rest may follow a token that is no name, as far as calls go. -/
theorem of_last (ls : List Lexeme) {lexeme : Lexeme} (h : ∀ name, lexeme.token ≠ .ident name) :
    Stops 0 (ls ++ [lexeme]) rest := by
  refine ⟨fun _ _ => Nat.zero_le _, fun _ name hname => ?_⟩
  rw [List.getLast?_concat, Option.map_some, Option.some.injEq] at hname
  exact h name hname

/-- A comma or a closing parenthesis ends every expression. -/
theorem of_punct {mark : Punct} {span : Span} (hmark : mark ≠ .lparen) :
    Stops level ls (⟨.punct mark, span⟩ :: rest) := by
  constructor
  · intro op hop
    cases hop
  · intro hparen
    cases hparen
    exact absurd rfl hmark

end Stops
end Pseudocode
