import Pseudocode.Grammar.Statement
import Pseudocode.Proofs.Grammar.Trees
import Pseudocode.Proofs.Likeness.Tree

/-! # What parsers build

A parser is followed from a row of tokens on lines with some property: what it builds is good, in a
sense that depends on the construct; the tokens that it leaves are on such lines; and so is the
error if it fails, unless it failed at the end of the input, whose line it does not know.

* `Parser.Builds`: what a parser builds is good.
* `Builds.bind` and the theorems after it: sequences, single tokens and lists.
* `builds_expression`, `builds_block`: all nodes are on lines with the property, and every
  `RETOURNER` fits the routine it stands in. -/

namespace Pseudocode
set_option autoImplicit false

/-- The tokens are on lines with the property. -/
abbrev LexemesOn (P : Nat → Prop) (lexemes : List Lexeme) : Prop :=
  ∀ lexeme ∈ lexemes, P lexeme.span.line

/-- The error points at a line with the property, or at the end of the input. -/
def SyntaxError.On (P : Nat → Prop) (error : SyntaxError) : Prop :=
  P error.line ∨ ∃ expected, error = ⟨.unexpectedEnd expected, 0⟩

namespace Parser
variable {P : Nat → Prop} {α β : Type} {good : α → Prop} {good' : β → Prop}

/-- What a parser built is good, and what it left or failed at is on lines with the property. -/
def Built (P : Nat → Prop) (good : α → Prop) : Except SyntaxError (α × List Lexeme) → Prop
  | .ok (a, rest) => good a ∧ LexemesOn P rest
  | .error error => error.On P

def Builds (P : Nat → Prop) (good : α → Prop) (p : Parser α) : Prop :=
  ∀ lexemes, LexemesOn P lexemes → Built P good (p lexemes)

/-! ## Sequences -/

theorem Builds.bind {p : Parser α} {f : α → Parser β} (hp : Builds P good p)
    (hf : ∀ a, good a → Builds P good' (f a)) : Builds P good' (p >>= f) := by
  intro lexemes hlexemes
  have hfirst := hp lexemes hlexemes
  change Built P good' (p lexemes >>= fun result => f result.1 result.2)
  cases hp : p lexemes with
  | error error =>
    rw [hp] at hfirst
    exact hfirst
  | ok result =>
    obtain ⟨a, rest⟩ := result
    rw [hp] at hfirst
    exact hf a hfirst.1 rest hfirst.2

theorem builds_pure {a : α} (h : good a) : Builds P good (pure a) :=
  fun _ hlexemes => ⟨h, hlexemes⟩

theorem Builds.map {p : Parser α} {f : α → β} (hp : Builds P good p)
    (h : ∀ a, good a → good' (f a)) : Builds P good' (f <$> p) := by
  rw [map_eq_pure_bind]
  exact hp.bind fun a ha => builds_pure (h a ha)

theorem builds_throw {error : SyntaxError} (h : P error.line) : Builds P good (throw error) :=
  fun _ _ => .inl h

theorem builds_unexpected {expected : Expected} {found : Option Lexeme}
    (h : ∀ lexeme ∈ found, P lexeme.span.line) : Builds P good (unexpected expected found) := by
  intro lexemes _
  cases found with
  | none => exact .inr ⟨expected, rfl⟩
  | some lexeme => exact .inl (h lexeme rfl)

theorem builds_ite {c : Prop} [Decidable c] {first other : Parser α} (hfirst : Builds P good first)
    (hother : Builds P good other) : Builds P good (if c then first else other) := by
  split
  · exact hfirst
  · exact hother

/-! ## Single tokens -/

section Tokens
variable {f : Option Lexeme → Parser β}

theorem builds_get {f : List Lexeme → Parser β}
    (h : ∀ lexemes, LexemesOn P lexemes → Builds P good' (f lexemes)) :
    Builds P good' (get >>= f) :=
  fun lexemes hlexemes => h lexemes hlexemes lexemes hlexemes

theorem builds_peek
    (h : ∀ found : Option Lexeme, (∀ lexeme ∈ found, P lexeme.span.line) →
      Builds P good' (f found)) :
    Builds P good' (peek? >>= f) := by
  intro lexemes hlexemes
  exact h lexemes.head? (fun lexeme hhead => hlexemes lexeme (List.mem_of_mem_head? hhead)) lexemes
    hlexemes

theorem builds_next : Builds P (fun found => ∀ lexeme ∈ found, P lexeme.span.line) next? := by
  intro lexemes hlexemes
  refine ⟨fun lexeme hhead => hlexemes lexeme (List.mem_of_mem_head? hhead), ?_⟩
  exact fun lexeme hmem => hlexemes lexeme (List.mem_of_mem_tail hmem)

/-- At the end of the input there is no next line, and what follows has to fail. -/
theorem builds_nextLine {f : Nat → Parser β} (h : ∀ line, P line → Builds P good' (f line))
    (hend : ∃ expected, f 0 [] = .error ⟨.unexpectedEnd expected, 0⟩) :
    Builds P good' (nextLine >>= f) := by
  intro lexemes hlexemes
  cases lexemes with
  | nil =>
    obtain ⟨expected, hend⟩ := hend
    change Built P good' (f 0 [])
    rw [hend]
    exact .inr ⟨expected, rfl⟩
  | cons lexeme rest => exact h _ (hlexemes lexeme List.mem_cons_self) _ hlexemes

theorem builds_expect (token : Token) : Builds P (fun _ => True) (expect token) := by
  refine builds_next.bind fun found hfound => ?_
  exact builds_ite (builds_pure trivial) (builds_unexpected hfound)

theorem builds_expectEither (token other : Token) :
    Builds P (fun _ => True) (expectEither token other) := by
  refine builds_next.bind fun found hfound => ?_
  exact builds_ite (builds_pure trivial) (builds_unexpected hfound)

theorem builds_accept (token : Token) : Builds P (fun _ => True) (accept token) := by
  refine builds_peek fun found _ => builds_ite ?_ (builds_pure trivial)
  exact builds_next.bind fun _ _ => builds_pure trivial

theorem builds_skipSeparators : Builds P (fun _ => True) skipSeparators :=
  fun _ hlexemes => ⟨trivial, fun lexeme hmem =>
    hlexemes lexeme ((List.dropWhile_suffix _).subset hmem)⟩

theorem builds_identifier : Builds P (fun _ => True) identifier := by
  refine builds_next.bind fun found hfound => ?_
  split
  · exact builds_pure trivial
  · exact builds_unexpected hfound

end Tokens

/-! ## Lists -/

section Lists
variable {item : Parser α} (hitem : Builds P good item)
include hitem

theorem builds_itemsToClose (bound : Nat) :
    Builds P (fun items => ∀ a ∈ items, good a) (itemsToClose item bound) := by
  induction bound with
  | zero => exact builds_unexpected nofun
  | succ bound ih =>
    refine hitem.bind fun first hfirst => builds_next.bind fun found hfound => ?_
    split
    · refine ih.bind fun rest hrest => builds_pure ?_
      exact List.forall_mem_cons.2 ⟨hfirst, hrest⟩
    · exact builds_pure (List.forall_mem_singleton.2 hfirst)
    · exact builds_unexpected nofun
    · exact builds_unexpected hfound

theorem builds_closedList : Builds P (fun items => ∀ a ∈ items, good a) (closedList item) := by
  refine (builds_accept (.punct .rparen)).bind fun taken _ => builds_ite (builds_pure nofun) ?_
  exact builds_get fun lexemes _ => builds_itemsToClose hitem (lexemes.length + 1)

theorem builds_itemsWithCommas (bound : Nat) :
    Builds P (fun items => items ≠ [] ∧ ∀ a ∈ items, good a) (itemsWithCommas item bound) := by
  have hsingle (a : α) (ha : good a) :
      Builds P (fun items => items ≠ [] ∧ ∀ a ∈ items, good a) (pure [a]) :=
    builds_pure ⟨List.cons_ne_nil a [], List.forall_mem_singleton.2 ha⟩
  induction bound with
  | zero => exact hitem.bind hsingle
  | succ bound ih =>
    refine hitem.bind fun first hfirst => (builds_accept (.punct .comma)).bind fun taken _ => ?_
    refine builds_ite (ih.bind fun rest hrest => builds_pure ?_) (hsingle first hfirst)
    exact ⟨List.cons_ne_nil first rest, List.forall_mem_cons.2 ⟨hfirst, hrest.2⟩⟩

theorem builds_openList :
    Builds P (fun items => items ≠ [] ∧ ∀ a ∈ items, good a) (openList item) :=
  builds_get fun lexemes _ => builds_itemsWithCommas hitem lexemes.length

end Lists

/-! ## Expressions -/

abbrev BuildsExpr (P : Nat → Prop) (p : Parser Expr) : Prop := Builds P (Expr.OnLines P) p

theorem builds_chain {operand : Parser Expr} (hoperand : BuildsExpr P operand) (level bound : Nat)
    {left : Expr} (hleft : left.OnLines P) : BuildsExpr P (chain operand level bound left) := by
  induction bound generalizing left with
  | zero => exact builds_pure hleft
  | succ bound ih =>
    refine builds_peek fun found hfound => ?_
    split
    · refine builds_ite ?_ (builds_pure hleft)
      refine builds_next.bind fun _ _ => hoperand.bind fun right hright => ih ?_
      exact .binary hleft hright (hfound _ rfl)
    · exact builds_pure hleft

theorem builds_binary {operand : Parser Expr} (hoperand : BuildsExpr P operand)
    (bound level : Nat) : BuildsExpr P (binary operand bound level) := by
  induction level with
  | zero => exact hoperand
  | succ level ih => exact ih.bind fun left hleft => builds_chain ih level bound hleft

theorem builds_primary {expression : Parser Expr} (hexpression : BuildsExpr P expression)
    (bound : Nat) : BuildsExpr P (primary expression bound) := by
  refine builds_next.bind fun found hfound => ?_
  split
  · exact builds_pure (.literal (hfound _ rfl))
  · refine (builds_accept (.punct .lparen)).bind fun taken _ => builds_ite ?_ ?_
    · refine (builds_accept (.punct .rparen)).bind fun closed _ => builds_ite ?_ ?_
      · exact builds_pure (.call nofun (hfound _ rfl))
      · refine (builds_itemsToClose hexpression bound).bind fun arguments harguments => ?_
        exact builds_pure (.call harguments (hfound _ rfl))
    · exact builds_pure (.var (hfound _ rfl))
  · refine hexpression.bind fun inner hinner => (builds_expect _).bind fun _ _ => ?_
    exact builds_pure hinner
  · exact builds_unexpected hfound

theorem builds_prefixed {expression : Parser Expr} (hexpression : BuildsExpr P expression)
    (bound : Nat) : BuildsExpr P (prefixed expression bound) := by
  induction bound with
  | zero => exact builds_unexpected nofun
  | succ bound ih =>
    refine builds_peek fun found hfound => ?_
    split
    · refine builds_next.bind fun _ _ => ih.bind fun operand hoperand => ?_
      exact builds_pure (.unary hoperand (hfound _ rfl))
    · refine builds_next.bind fun _ _ => ih.bind fun operand hoperand => ?_
      exact builds_pure (.unary hoperand (hfound _ rfl))
    · exact builds_primary hexpression bound

theorem builds_expressionWithin (bound : Nat) : BuildsExpr P (expressionWithin bound) := by
  induction bound with
  | zero => exact builds_unexpected nofun
  | succ bound ih => exact builds_binary (builds_prefixed ih (bound + 1)) (bound + 1) _

theorem builds_expression : BuildsExpr P expression :=
  builds_get fun lexemes _ => builds_expressionWithin (lexemes.length + 1)

/-! ## Statements without blocks -/

end Parser

/-- The nodes of the statement are on lines with the property, and it may stand in the given routine
or in the main block, with all that it encloses. -/
structure Statement.Fits (P : Nat → Prop) (routine : Option RoutineKind) (statement : Statement) :
    Prop where
  lines : statement.OnLines P
  proper : statement.Proper routine
  blocks : ∀ block ∈ statement.blocks, ProperBlock routine block

theorem properBlock_of_fits {P : Nat → Prop} {routine : Option RoutineKind} {block : List Statement}
    (h : ∀ statement ∈ block, statement.Fits P routine) : ProperBlock routine block := by
  induction block with
  | nil => exact properBlock_nil routine
  | cons first rest ih =>
    obtain ⟨hfirst, hrest⟩ := List.forall_mem_cons.1 h
    exact properBlock_cons hfirst.proper hfirst.blocks (ih hrest)

namespace Parser
variable {P : Nat → Prop}

abbrev BuildsStatement (P : Nat → Prop) (routine : Option RoutineKind) (p : Parser Statement) :
    Prop :=
  Builds P (Statement.Fits P routine) p

section Simple
variable {routine : Option RoutineKind} {line : Nat} (hline : P line)
include hline

theorem builds_assignOrCall (name : String) :
    BuildsStatement P routine (assignOrCall name line) := by
  have hassign : BuildsStatement P routine (do return .assign name (← expression) line) :=
    builds_expression.bind fun value hvalue =>
      builds_pure ⟨.assign hvalue hline, trivial, nofun⟩
  refine builds_next.bind fun found hfound => ?_
  split
  · exact hassign
  · exact hassign
  · refine (builds_closedList builds_expression).bind fun arguments harguments => ?_
    exact builds_pure ⟨.call harguments hline, trivial, nofun⟩
  · exact builds_unexpected hfound

theorem builds_readTargets : BuildsStatement P routine (readTargets line) := by
  refine (builds_accept (.punct .lparen)).bind fun taken _ => builds_ite ?_ ?_
  · refine (builds_closedList builds_identifier).bind fun targets _ => ?_
    split
    · exact builds_throw hline
    · rename_i hne
      exact builds_pure ⟨.read hline, hne, nofun⟩
  · refine (builds_openList builds_identifier).bind fun targets htargets => ?_
    exact builds_pure ⟨.read hline, htargets.1, nofun⟩

theorem builds_writeValues : BuildsStatement P routine (writeValues line) := by
  refine (builds_accept (.punct .lparen)).bind fun taken _ => builds_ite ?_ ?_
  · refine (builds_closedList builds_expression).bind fun values hvalues => ?_
    exact builds_pure ⟨.write hvalues hline, trivial, nofun⟩
  · refine (builds_openList builds_expression).bind fun values hvalues => ?_
    exact builds_pure ⟨.write hvalues.2 hline, trivial, nofun⟩

theorem builds_returnValue : BuildsStatement P routine (returnValue routine line) := by
  refine builds_peek fun found _ => ?_
  dsimp only
  split
  · refine builds_expression.bind fun value hvalue => builds_pure ⟨.ret ?_ hline, trivial, nofun⟩
    rintro _ ⟨⟩
    exact hvalue
  · exact builds_pure ⟨.ret nofun hline, trivial, nofun⟩
  · exact builds_throw hline
  · exact builds_throw hline
  · exact builds_throw hline

end Simple

/-! ## Blocks -/

abbrev BuildsBlock (P : Nat → Prop) (routine : Option RoutineKind) (p : Parser (List Statement)) :
    Prop :=
  Builds P (fun block => ∀ statement ∈ block, statement.Fits P routine) p

theorem builds_blockWithin {routine : Option RoutineKind} {statement : Parser Statement}
    (hstatement : BuildsStatement P routine statement) (closing : List Token) (bound : Nat) :
    BuildsBlock P routine (blockWithin statement closing bound) := by
  induction bound with
  | zero => exact builds_pure nofun
  | succ bound ih =>
    refine builds_skipSeparators.bind fun _ _ => builds_peek fun found _ => ?_
    split
    · exact builds_pure nofun
    · refine builds_ite (builds_pure nofun) ?_
      refine hstatement.bind fun first hfirst => ih.bind fun rest hrest => ?_
      exact builds_pure (List.forall_mem_cons.2 ⟨hfirst, hrest⟩)

section Blocks
variable {routine : Option RoutineKind} {block : List Token → Parser (List Statement)}
  (hblock : ∀ closing, BuildsBlock P routine (block closing)) {line : Nat} (hline : P line)
include hblock hline

theorem builds_branchRest : BuildsStatement P routine (branchRest block line) := by
  refine builds_expression.bind fun condition hcondition => ?_
  refine (builds_expect _).bind fun _ _ => (hblock _).bind fun thenBlock hthen => ?_
  have hthenLines := fun inner hinner => (hthen inner hinner).lines
  have hthenProper := properBlock_of_fits hthen
  refine (builds_accept _).bind fun taken _ => builds_ite ?_ ?_
  · refine (hblock _).bind fun elseBlock helse => (builds_expect _).bind fun _ _ => ?_
    have helseProper := properBlock_of_fits helse
    refine builds_pure ⟨.branch hcondition hthenLines ?_ hline, trivial, ?_⟩
    · rintro _ ⟨⟩
      exact fun inner hinner => (helse inner hinner).lines
    · exact List.forall_mem_cons.2 ⟨hthenProper, List.forall_mem_singleton.2 helseProper⟩
  · refine (builds_expect _).bind fun _ _ => ?_
    refine builds_pure ⟨.branch hcondition hthenLines nofun hline, trivial, ?_⟩
    exact List.forall_mem_singleton.2 hthenProper

theorem builds_whileRest : BuildsStatement P routine (whileRest block line) := by
  refine builds_expression.bind fun condition hcondition => (builds_accept _).bind fun _ _ => ?_
  refine (hblock _).bind fun body hbody => (builds_expect _).bind fun _ _ => ?_
  have hlines := fun inner hinner => (hbody inner hinner).lines
  refine builds_pure ⟨.whileLoop hcondition hlines hline, trivial, ?_⟩
  exact List.forall_mem_singleton.2 (properBlock_of_fits hbody)

theorem builds_repeatRest : BuildsStatement P routine (repeatRest block line) := by
  refine (hblock _).bind fun body hbody => (builds_expect _).bind fun _ _ => ?_
  refine builds_expression.bind fun condition hcondition => ?_
  have hlines := fun inner hinner => (hbody inner hinner).lines
  refine builds_pure ⟨.repeatLoop hlines hcondition hline, trivial, ?_⟩
  exact List.forall_mem_singleton.2 (properBlock_of_fits hbody)

theorem builds_forRest : BuildsStatement P routine (forRest block line) := by
  refine builds_identifier.bind fun name _ => (builds_expectEither _ _).bind fun _ _ => ?_
  refine builds_expression.bind fun first hfirst => (builds_expectEither _ _).bind fun _ _ => ?_
  refine builds_expression.bind fun last hlast => (builds_accept _).bind fun taken _ => ?_
  have hrest (step : Option Expr) (hstep : ∀ e ∈ step, e.OnLines P) :
      BuildsStatement P routine (do
        let _ ← accept (.keyword .faire)
        let body ← block [.keyword .finPour]
        expect (.keyword .finPour)
        return .forLoop name first last step body line) := by
    refine (builds_accept _).bind fun _ _ => (hblock _).bind fun body hbody => ?_
    refine (builds_expect _).bind fun _ _ => ?_
    have hlines := fun inner hinner => (hbody inner hinner).lines
    refine builds_pure ⟨.forLoop hfirst hlast hstep hlines hline, trivial, ?_⟩
    exact List.forall_mem_singleton.2 (properBlock_of_fits hbody)
  cases taken with
  | true =>
    simp only [if_true, map_eq_pure_bind, bind_assoc, pure_bind]
    refine builds_expression.bind fun step hstep => hrest (some step) ?_
    rintro _ ⟨⟩
    exact hstep
  | false =>
    simp only [Bool.false_eq_true, if_false, pure_bind]
    exact hrest none nofun

end Blocks

/-! ## All statements -/

theorem builds_statementWithin (routine : Option RoutineKind) (bound : Nat) :
    BuildsStatement P routine (statementWithin routine bound) := by
  induction bound with
  | zero => exact builds_unexpected nofun
  | succ bound ih =>
    have hblock (closing : List Token) : BuildsBlock P routine
        (blockWithin (statementWithin routine bound) closing bound) :=
      builds_blockWithin ih closing bound
    refine builds_peek fun found hfound => ?_
    split
    · exact builds_unexpected nofun
    · rename_i token span
      have hline : P span.line := hfound ⟨token, span⟩ rfl
      split
      case h_9 => exact builds_unexpected hfound
      all_goals refine builds_next.bind fun _ _ => ?_
      · exact builds_assignOrCall hline _
      · exact builds_readTargets hline
      · exact builds_writeValues hline
      · exact builds_branchRest hblock hline
      · exact builds_forRest hblock hline
      · exact builds_whileRest hblock hline
      · exact builds_repeatRest hblock hline
      · exact builds_returnValue hline

theorem builds_statement (routine : Option RoutineKind) :
    BuildsStatement P routine (statement routine) :=
  builds_get fun lexemes _ => builds_statementWithin routine (lexemes.length + 1)

theorem builds_block (routine : Option RoutineKind) (closing : List Token) :
    BuildsBlock P routine (block routine closing) :=
  builds_get fun _ _ => builds_blockWithin (builds_statement routine) closing _

end Parser
end Pseudocode
