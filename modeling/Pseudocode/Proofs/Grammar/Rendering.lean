import Pseudocode.Proofs.Grammar.Trees

/-! # Writing programs down

The tokens of a program, one statement to a line. An expression is written in one way, with the
parentheses that the layers of the grammar ask for. The first line of a loop may be written in
several ways, and the sections of a program may come in any order, so from statements on this is a
relation between trees and tokens.

* `Expr.tokens`, `VarDecl.tokens`, `ConstDecl.tokens`: what is written in one way.
* `Written`, `WrittenBlock`, `WrittenItem`, `Program.Written`: what may be written in several.
* `Program.exists_written`: every program can be written down. -/

namespace Pseudocode
set_option autoImplicit false

/-- Rows of tokens with commas between them. -/
def commas (rows : List (List Token)) : List Token := [Token.punct .comma].intercalate rows

/-! ## Expressions -/

def UnOp.token : UnOp → Token
  | .negate => .op .sub
  | .not => .keyword .non

mutual

/-- The tokens of an expression where the layers below the given number may stand. -/
def Expr.tokensAt : Nat → Expr → List Token
  | _, .literal value _ => [.literal value]
  | _, .var name _ => [.ident name]
  | _, .unary op operand _ => op.token :: operand.tokensAt 0
  | level, .binary left op right _ =>
    let tokens := left.tokensAt (op.level + 1) ++ .op op :: right.tokensAt op.level
    if op.level < level then tokens else .punct .lparen :: (tokens ++ [.punct .rparen])
  | _, .call name arguments _ =>
    .ident name :: .punct .lparen :: (commas (tokensEach arguments) ++ [.punct .rparen])

/-- The tokens of each expression. -/
def tokensEach : List Expr → List (List Token)
  | [] => []
  | first :: rest => first.tokensAt BinOp.levels :: tokensEach rest

end

/-- The tokens of an expression by itself. -/
def Expr.tokens (e : Expr) : List Token := e.tokensAt BinOp.levels

/-! ## Statements -/

/-- The step of a loop over integers, if there is one. -/
def stepTokens : Option Expr → List Token
  | none => []
  | some step => .keyword .pas :: step.tokens

mutual

/-- The statement may be written as the tokens. -/
inductive Written : Statement → List Token → Prop where
  | assign (target : String) (value : Expr) (line : Nat) :
      Written (.assign target value line) (.ident target :: .punct .assign :: value.tokens)
  | read (targets : List String) (line : Nat) :
      Written (.read targets line) (.keyword .lire :: .punct .lparen ::
        (commas (targets.map fun name => [.ident name]) ++ [.punct .rparen]))
  | write (values : List Expr) (line : Nat) :
      Written (.write values line) (.keyword .ecrire :: .punct .lparen ::
        (commas (values.map Expr.tokens) ++ [.punct .rparen]))
  | branch {thenBlock : List Statement} {thenTokens : List Token} (condition : Expr) (line : Nat) :
      WrittenBlock thenBlock thenTokens →
      Written (.branch condition thenBlock none line) (.keyword .si ::
        (condition.tokens ++ .keyword .alors :: (thenTokens ++ [.keyword .finSi])))
  | branchElse {thenBlock elseBlock : List Statement} {thenTokens elseTokens : List Token}
      (condition : Expr) (line : Nat) :
      WrittenBlock thenBlock thenTokens → WrittenBlock elseBlock elseTokens →
      Written (.branch condition thenBlock (some elseBlock) line) (.keyword .si ::
        (condition.tokens ++ .keyword .alors :: (thenTokens ++ .keyword .sinon ::
          (elseTokens ++ [.keyword .finSi]))))
  | forLoop {start stop : Token} {faire bodyTokens : List Token} {body : List Statement}
      (name : String) (first last : Expr) (step : Option Expr) (line : Nat) :
      start ∈ [Token.keyword .de, .punct .assign] → stop ∈ [Token.keyword .a, .keyword .jusqua] →
      faire ∈ [[], [Token.keyword .faire]] → WrittenBlock body bodyTokens →
      Written (.forLoop name first last step body line) (.keyword .pour :: .ident name :: start ::
        (first.tokens ++ stop :: (last.tokens ++ (stepTokens step ++ (faire ++
          (bodyTokens ++ [.keyword .finPour]))))))
  | whileLoop {faire bodyTokens : List Token} {body : List Statement} (condition : Expr)
      (line : Nat) :
      faire ∈ [[], [Token.keyword .faire]] → WrittenBlock body bodyTokens →
      Written (.whileLoop condition body line) (.keyword .tantQue ::
        (condition.tokens ++ (faire ++ (bodyTokens ++ [.keyword .finTantQue]))))
  | repeatLoop {bodyTokens : List Token} {body : List Statement} (condition : Expr) (line : Nat) :
      WrittenBlock body bodyTokens →
      Written (.repeatLoop body condition line) (.keyword .repeter ::
        (bodyTokens ++ .keyword .jusqua :: condition.tokens))
  | call (name : String) (arguments : List Expr) (line : Nat) :
      Written (.call name arguments line) (.ident name :: .punct .lparen ::
        (commas (arguments.map Expr.tokens) ++ [.punct .rparen]))
  | retNone (line : Nat) : Written (.ret none line) [.keyword .retourner]
  | ret (value : Expr) (line : Nat) :
      Written (.ret (some value) line) (.keyword .retourner :: value.tokens)

/-- The block may be written as the tokens: each of its statements on a line of its own, and what
closes the block on the line after them. -/
inductive WrittenBlock : List Statement → List Token → Prop where
  | nil : WrittenBlock [] [.newline]
  | cons {first : Statement} {rest : List Statement} {firstTokens restTokens : List Token} :
      Written first firstTokens → WrittenBlock rest restTokens →
      WrittenBlock (first :: rest) (.newline :: (firstTokens ++ restTokens))

end

/-! ## Declarations -/

/-- A colon and a type, if there is one. -/
def typeTokens : Option Ty → List Token
  | none => []
  | some ty => [.punct .colon, .type ty]

def VarDecl.tokens (declaration : VarDecl) : List Token :=
  commas (declaration.names.map fun name => [.ident name]) ++ [.punct .colon, .type declaration.ty]

def ConstDecl.tokens (constant : ConstDecl) : List Token :=
  .ident constant.name :: (typeTokens constant.ty? ++ .op .equal :: constant.value.tokens)

def Param.tokens (param : Param) : List Token := [.ident param.name, .punct .colon, .type param.ty]

/-- A section with one declaration to a line. -/
def sectionTokens (word : Keyword) (declarations : List (List Token)) : List Token :=
  .keyword word :: declarations.flatMap (.newline :: ·)

/-- The local variables of a routine, in a section if there are some. -/
def localTokens : List VarDecl → List Token
  | [] => []
  | declarations => sectionTokens .vars (declarations.map VarDecl.tokens) ++ [.newline]

def RoutineKind.keyword : RoutineKind → Keyword
  | .procedure => .procedure
  | .function => .fonction

/-- The tokens of a routine with a body that is written as the given tokens. -/
def Routine.tokens (routine : Routine) (bodyTokens : List Token) : List Token :=
  .keyword routine.kind.keyword :: .ident routine.name :: .punct .lparen ::
    (commas (routine.params.map Param.tokens) ++ .punct .rparen ::
      (typeTokens routine.returnType? ++ .newline :: (localTokens routine.locals ++
        .keyword .debut :: (bodyTokens ++ [.keyword .fin]))))

/-! ## Programs -/

/-- The section or routine may be written as the tokens. -/
inductive WrittenItem : Item → List Token → Prop where
  | constants (declarations : List ConstDecl) :
      WrittenItem (.constants declarations)
        (sectionTokens .constantes (declarations.map ConstDecl.tokens))
  | vars (declarations : List VarDecl) :
      WrittenItem (.vars declarations) (sectionTokens .vars (declarations.map VarDecl.tokens))
  | routine {routine : Routine} {bodyTokens : List Token} :
      WrittenBlock routine.body bodyTokens →
      WrittenItem (.routine routine) (routine.tokens bodyTokens)

/-- The sections and routines may be written as the tokens, one after the other. -/
inductive WrittenItems : List Item → List Token → Prop where
  | nil : WrittenItems [] []
  | cons {item : Item} {items : List Item} {itemTokens rest : List Token} :
      WrittenItem item itemTokens → WrittenItems items rest →
      WrittenItems (item :: items) (itemTokens ++ .newline :: rest)

/-- The heading of a program, if it has a name. -/
def headingTokens : Option String → List Token
  | none => []
  | some name => [.keyword .algorithme, .ident name, .newline]

/-- The program may be written as the tokens: its heading, its sections and routines in some order,
and its statements between `DEBUT` and `FIN`. -/
def Program.Written (program : Program) (tokens : List Token) : Prop :=
  ∃ items itemTokens bodyTokens,
    WrittenItems items itemTokens ∧ WrittenBlock program.statements bodyTokens ∧
      Program.ofItems program.name (items ++ [.statements program.statements]) = program ∧
      tokens = headingTokens program.name ++ (itemTokens ++
        .keyword .debut :: (bodyTokens ++ [.keyword .fin]))

/-! ## Every program can be written down -/

mutual

theorem Statement.exists_written : ∀ statement : Statement, ∃ ts, Written statement ts
  | .assign target value line => ⟨_, .assign target value line⟩
  | .read targets line => ⟨_, .read targets line⟩
  | .write values line => ⟨_, .write values line⟩
  | .branch condition thenBlock none line => by
    obtain ⟨thenTokens, hthen⟩ := exists_writtenBlock thenBlock
    exact ⟨_, .branch condition line hthen⟩
  | .branch condition thenBlock (some elseBlock) line => by
    obtain ⟨thenTokens, hthen⟩ := exists_writtenBlock thenBlock
    obtain ⟨elseTokens, helse⟩ := exists_writtenBlock elseBlock
    exact ⟨_, .branchElse condition line hthen helse⟩
  | .forLoop name first last step body line => by
    obtain ⟨bodyTokens, hbody⟩ := exists_writtenBlock body
    exact ⟨_, .forLoop name first last step line List.mem_cons_self List.mem_cons_self
      List.mem_cons_self hbody⟩
  | .whileLoop condition body line => by
    obtain ⟨bodyTokens, hbody⟩ := exists_writtenBlock body
    exact ⟨_, .whileLoop condition line List.mem_cons_self hbody⟩
  | .repeatLoop body condition line => by
    obtain ⟨bodyTokens, hbody⟩ := exists_writtenBlock body
    exact ⟨_, .repeatLoop condition line hbody⟩
  | .call name arguments line => ⟨_, .call name arguments line⟩
  | .ret none line => ⟨_, .retNone line⟩
  | .ret (some value) line => ⟨_, .ret value line⟩

theorem exists_writtenBlock : ∀ block : List Statement, ∃ ts, WrittenBlock block ts
  | [] => ⟨_, .nil⟩
  | first :: rest => by
    obtain ⟨firstTokens, hfirst⟩ := first.exists_written
    obtain ⟨restTokens, hrest⟩ := exists_writtenBlock rest
    exact ⟨_, .cons hfirst hrest⟩

end

theorem exists_writtenRoutines (routines : List Routine) :
    ∃ ts, WrittenItems (routines.map .routine) ts := by
  induction routines with
  | nil => exact ⟨_, .nil⟩
  | cons routine routines ih =>
    obtain ⟨bodyTokens, hbody⟩ := exists_writtenBlock routine.body
    obtain ⟨ts, hts⟩ := ih
    exact ⟨_, .cons (.routine hbody) hts⟩

theorem Program.exists_written (program : Program) : ∃ ts, program.Written ts := by
  obtain ⟨routineTokens, hroutines⟩ := exists_writtenRoutines program.routines
  obtain ⟨bodyTokens, hbody⟩ := exists_writtenBlock program.statements
  refine ⟨_, .constants program.constants :: .vars program.declarations ::
    program.routines.map .routine, _, bodyTokens,
    .cons (.constants _) (.cons (.vars _) hroutines), hbody, ?_, rfl⟩
  have hnone : ∀ α : Type, program.routines.flatMap (fun _ => ([] : List α)) = [] :=
    fun α => List.flatMap_eq_nil_iff.2 fun _ _ => rfl
  simp [Program.ofItems, List.flatMap_map, hnone]

end Pseudocode
