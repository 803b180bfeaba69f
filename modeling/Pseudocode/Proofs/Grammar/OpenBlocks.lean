import Pseudocode.Proofs.Grammar.Nesting
import Pseudocode.Proofs.Grammar.Takes

/-! # Which blocks are open after each token

The tokens of a program, each with the number of `SI`, `POUR`, `TANT QUE` and `REPETER` that are
opened and not closed yet after it. The numbers follow the tree: a construct is opened by its first
word and closed by its last one, and a `REPETER` is closed by its `JUSQU'A`, before the condition.

* `StatementRow`, `BlockRow`: the tokens of statements, inside of so many open blocks.
* `takes_statement`, `takes_block`: what the parser takes for statements are such tokens. -/

namespace Pseudocode
set_option autoImplicit false

/-! ## Rows -/

/-- Tokens, each with the number of blocks that are open after it. -/
abbrev Row := List (Lexeme × Nat)

namespace Row

def lexemes (row : Row) : List Lexeme := row.map Prod.fst

/-- Tokens that leave the number of open blocks as it is. -/
def level (n : Nat) (ls : List Lexeme) : Row := ls.map fun lexeme => (lexeme, n)

section Lexemes
variable {n : Nat} {lexeme : Lexeme} {ls rs : List Lexeme} {row row' : Row} {entry : Lexeme × Nat}

@[simp] theorem lexemes_nil : lexemes [] = [] := rfl

@[simp] theorem lexemes_cons : lexemes (entry :: row) = entry.1 :: row.lexemes := rfl

@[simp] theorem lexemes_append : (row ++ row').lexemes = row.lexemes ++ row'.lexemes :=
  List.map_append ..

@[simp] theorem lexemes_level : (level n ls).lexemes = ls := by
  simp only [lexemes, level, List.map_map, Function.comp_def, List.map_id']

theorem level_cons : level n (lexeme :: ls) = (lexeme, n) :: level n ls := rfl

theorem level_append : level n (ls ++ rs) = level n ls ++ level n rs := List.map_append ..

end Lexemes

end Row

open Row (level)

/-! ## Statements -/

/-- A word that may be left out. -/
inductive Optional (word : Keyword) : List Lexeme → Prop where
  | absent : Optional word []
  | written (span : Span) : Optional word [⟨.keyword word, span⟩]

/-- The first line of a `POUR` after that word. -/
inductive ForHeader : List Lexeme → Prop where
  | mk {before after faire : List Lexeme} {until_ : Lexeme} :
      Flat before → until_.token = .keyword .a ∨ until_.token = .keyword .jusqua → Flat after →
      Optional .faire faire → ForHeader (before ++ until_ :: (after ++ faire))

mutual

/-- The tokens of a statement that stands inside of so many open blocks. -/
inductive StatementRow : Nat → Statement → Row → Prop where
  | simple {n : Nat} {statement : Statement} {ls : List Lexeme} :
      statement.blocks = [] → Phrase ls → StatementRow n statement (level n ls)
  | branch {n line : Nat} {condition : Expr} {thenBlock : List Statement} {head : List Lexeme}
      {row : Row} (si finSi : Span) : Flat head → BlockRow (n + 1) thenBlock row →
      StatementRow n (.branch condition thenBlock none line)
        ((⟨.keyword .si, si⟩, n + 1) :: (level (n + 1) head ++ row ++
          [(⟨.keyword .finSi, finSi⟩, n)]))
  | branchElse {n line : Nat} {condition : Expr} {thenBlock elseBlock : List Statement}
      {head : List Lexeme} {row row' : Row} (si sinon finSi : Span) : Flat head →
      BlockRow (n + 1) thenBlock row → BlockRow (n + 1) elseBlock row' →
      StatementRow n (.branch condition thenBlock (some elseBlock) line)
        ((⟨.keyword .si, si⟩, n + 1) :: (level (n + 1) head ++
          (row ++ (⟨.keyword .sinon, sinon⟩, n + 1) :: row') ++ [(⟨.keyword .finSi, finSi⟩, n)]))
  | forLoop {n line : Nat} {name : String} {first last : Expr} {step : Option Expr}
      {body : List Statement} {head : List Lexeme} {row : Row} (pour finPour : Span) :
      ForHeader head → BlockRow (n + 1) body row →
      StatementRow n (.forLoop name first last step body line)
        ((⟨.keyword .pour, pour⟩, n + 1) :: (level (n + 1) head ++ row ++
          [(⟨.keyword .finPour, finPour⟩, n)]))
  | whileLoop {n line : Nat} {condition : Expr} {body : List Statement} {head faire : List Lexeme}
      {row : Row} (tantQue finTantQue : Span) :
      Flat head → Optional .faire faire → BlockRow (n + 1) body row →
      StatementRow n (.whileLoop condition body line)
        ((⟨.keyword .tantQue, tantQue⟩, n + 1) :: (level (n + 1) (head ++ faire) ++ row ++
          [(⟨.keyword .finTantQue, finTantQue⟩, n)]))
  | repeatLoop {n line : Nat} {condition : Expr} {body : List Statement} {test : List Lexeme}
      {row : Row} (repeter jusqua : Span) : BlockRow (n + 1) body row → Flat test →
      StatementRow n (.repeatLoop body condition line)
        ((⟨.keyword .repeter, repeter⟩, n + 1) :: (row ++
          (⟨.keyword .jusqua, jusqua⟩, n) :: level n test))

/-- The tokens of the statements of a block. -/
inductive BlockRow : Nat → List Statement → Row → Prop where
  | nil {n : Nat} : BlockRow n [] []
  | separator {n : Nat} {block : List Statement} {lexeme : Lexeme} {row : Row} :
      lexeme.token.isSeparator = true → BlockRow n block row →
      BlockRow n block ((lexeme, n) :: row)
  | cons {n : Nat} {first : Statement} {rest : List Statement} {row row' : Row} :
      StatementRow n first row → BlockRow n rest row' → BlockRow n (first :: rest) (row ++ row')

end

theorem BlockRow.separators {n : Nat} {block : List Statement} {ls : List Lexeme} {row : Row}
    (hls : ∀ lexeme ∈ ls, lexeme.token.isSeparator = true) (h : BlockRow n block row) :
    BlockRow n block (level n ls ++ row) := by
  induction ls with
  | nil => exact h
  | cons lexeme rest ih =>
    obtain ⟨hlexeme, hrest⟩ := List.forall_mem_cons.1 hls
    exact .separator hlexeme (ih hrest)

theorem StatementRow.ne_nil {n : Nat} {statement : Statement} {row : Row}
    (h : StatementRow n statement row) : row ≠ [] := by
  cases h with
  | simple _ hls => simpa [level] using hls.2
  | branch | branchElse | forLoop | whileLoop | repeatLoop => exact List.cons_ne_nil _ _

/-- However many blocks are open around them, the tokens are those of what was parsed. -/
def HasRow {α : Type} (rows : Nat → α → Row → Prop) (a : α) (ls : List Lexeme) : Prop :=
  ∀ n, ∃ row, rows n a row ∧ row.lexemes = ls

abbrev HasStatementRow : Statement → List Lexeme → Prop := HasRow StatementRow

abbrev HasBlockRow : List Statement → List Lexeme → Prop := HasRow BlockRow

theorem HasStatementRow.simple {statement : Statement} {ls : List Lexeme}
    (hblocks : statement.blocks = []) (hls : Phrase ls) : HasStatementRow statement ls :=
  fun n => ⟨level n ls, .simple hblocks hls, Row.lexemes_level⟩

namespace Parser
variable {ls : List Lexeme}

theorem takes_closedOperands : Takes (closedList expression) ls fun _ taken => Closing taken :=
  takes_closedList fun _ => takes_expression

theorem takes_openOperands : Takes (openList expression) ls fun _ taken => Phrase taken :=
  takes_openList fun _ => takes_expression

theorem takes_optional (word : Keyword) :
    Takes (accept (.keyword word)) ls fun _ taken => Optional word taken := by
  refine (takes_accept (.keyword word)).mono fun found taken h => ?_
  obtain ⟨-, span, rfl⟩ | ⟨-, rfl⟩ := h
  · exact .written span
  · exact .absent

/-! ## Statements without blocks -/

section Simple
variable {lexeme : Lexeme} (hlexeme : lexeme.token.isInline = true)
include hlexeme

theorem takes_assignOrCall (name : String) (line : Nat) :
    Takes (assignOrCall name line) ls fun statement taken =>
      HasStatementRow statement (lexeme :: taken) := by
  have hassign {mark : Lexeme} {ls : List Lexeme} (hmark : mark.token.isInline = true) :
      Takes (do return .assign name (← expression) line) ls fun statement taken =>
        HasStatementRow statement (lexeme :: mark :: taken) := by
    refine takes_expression.bind fun value taken _ hvalue => takes_pure (.simple rfl ?_)
    rw [List.append_nil]
    exact .cons hlexeme (.cons hmark hvalue.1)
  refine takes_next.bind fun found taken rest ⟨_, htaken⟩ => ?_
  subst htaken
  split
  · exact hassign rfl
  · exact hassign rfl
  · refine takes_closedOperands.bind fun arguments taken _ hclosing => takes_pure (.simple rfl ?_)
    rw [List.append_nil]
    exact .cons hlexeme (hclosing.group _)
  · exact takes_unexpected

theorem takes_readTargets (line : Nat) :
    Takes (readTargets line) ls fun statement taken =>
      HasStatementRow statement (lexeme :: taken) := by
  refine takes_acceptThen (fun opening rest => ?_) ?_
  · refine (takes_closedList fun _ => takes_identifier).bind fun targets taken _ hclosing => ?_
    split
    · exact takes_throw
    · refine takes_pure (.simple rfl ?_)
      rw [List.append_nil]
      exact .cons hlexeme (hclosing.group opening)
  · refine (takes_openList fun _ => takes_identifier).bind fun targets taken _ htargets => ?_
    refine takes_pure (.simple rfl ?_)
    rw [List.append_nil]
    exact .cons hlexeme htargets.1

theorem takes_writeValues (line : Nat) :
    Takes (writeValues line) ls fun statement taken =>
      HasStatementRow statement (lexeme :: taken) := by
  refine takes_acceptThen (fun opening rest => ?_) ?_
  · refine takes_closedOperands.bind fun values taken _ hclosing => takes_pure (.simple rfl ?_)
    rw [List.append_nil]
    exact .cons hlexeme (hclosing.group opening)
  · refine takes_openOperands.bind fun values taken _ hvalues => takes_pure (.simple rfl ?_)
    rw [List.append_nil]
    exact .cons hlexeme hvalues.1

theorem takes_returnValue (routine : Option RoutineKind) (line : Nat) :
    Takes (returnValue routine line) ls fun statement taken =>
      HasStatementRow statement (lexeme :: taken) := by
  refine takes_peek ?_
  dsimp only
  split
  · refine takes_expression.bind fun value taken _ hvalue => takes_pure (.simple rfl ?_)
    rw [List.append_nil]
    exact .cons hlexeme hvalue.1
  · exact takes_pure (.simple rfl (.cons hlexeme .nil))
  · exact takes_throw
  · exact takes_throw
  · exact takes_throw

end Simple

/-! ## Blocks -/

theorem takes_blockWithin {statement : Parser Statement}
    (hstatement : ∀ ls, Takes statement ls HasStatementRow) (closing : List Token) (bound : Nat) :
    Takes (blockWithin statement closing bound) ls HasBlockRow := by
  induction bound generalizing ls with
  | zero => exact takes_pure fun n => ⟨[], .nil, rfl⟩
  | succ bound ih =>
    refine takes_skipSeparators.bind fun _ separators rest hseparators => takes_peek ?_
    have hend {ls : List Lexeme} : Takes (pure []) ls fun block taken =>
        HasBlockRow block (separators ++ taken) :=
      takes_pure fun n => ⟨_, .separators hseparators .nil, by simp⟩
    split
    · exact hend
    · refine takes_ite (fun _ => hend) fun _ => ?_
      refine (hstatement _).bind fun first taken _ hfirst => ?_
      refine ih.bind fun others taken' _ hothers => takes_pure fun n => ?_
      obtain ⟨row, hrow, rfl⟩ := hfirst n
      obtain ⟨row', hrow', rfl⟩ := hothers n
      exact ⟨_, .separators hseparators (.cons hrow hrow'), by simp⟩

section Blocks
variable {block : List Token → Parser (List Statement)}
  (hblock : ∀ closing ls, Takes (block closing) ls HasBlockRow) (span : Span) (line : Nat)
include hblock

theorem takes_branchRest : Takes (branchRest block line) ls fun statement taken =>
    HasStatementRow statement (⟨.keyword .si, span⟩ :: taken) := by
  refine takes_expression.bind fun condition head _ hhead => ?_
  refine (takes_expect (.keyword .alors)).bind fun _ taken _ ⟨alors, halors⟩ => ?_
  subst halors
  have hflat : Flat (head ++ [⟨.keyword .alors, alors⟩]) := hhead.1.append (.token rfl)
  refine (hblock _ _).bind fun thenBlock _ _ hthen => ?_
  refine takes_acceptThen (fun sinon rest => ?_) ?_
  · refine (hblock _ _).bind fun elseBlock _ _ helse => ?_
    refine (takes_expect (.keyword .finSi)).bind fun _ taken _ ⟨finSi, hfinSi⟩ => ?_
    subst hfinSi
    refine takes_pure fun n => ?_
    obtain ⟨row, hrow, rfl⟩ := hthen (n + 1)
    obtain ⟨row', hrow', rfl⟩ := helse (n + 1)
    exact ⟨_, .branchElse span sinon finSi hflat hrow hrow', by simp⟩
  · refine (takes_expect (.keyword .finSi)).bind fun _ taken _ ⟨finSi, hfinSi⟩ => ?_
    subst hfinSi
    refine takes_pure fun n => ?_
    obtain ⟨row, hrow, rfl⟩ := hthen (n + 1)
    exact ⟨_, .branch span finSi hflat hrow, by simp⟩

theorem takes_whileRest : Takes (whileRest block line) ls fun statement taken =>
    HasStatementRow statement (⟨.keyword .tantQue, span⟩ :: taken) := by
  refine takes_expression.bind fun condition head _ hhead => ?_
  refine (takes_optional .faire).bind fun _ faire _ hfaire => ?_
  refine (hblock _ _).bind fun body _ _ hbody => ?_
  refine (takes_expect (.keyword .finTantQue)).bind fun _ taken _ ⟨finTantQue, hend⟩ => ?_
  subst hend
  refine takes_pure fun n => ?_
  obtain ⟨row, hrow, rfl⟩ := hbody (n + 1)
  exact ⟨_, .whileLoop span finTantQue hhead.1 hfaire hrow, by simp⟩

theorem takes_repeatRest : Takes (repeatRest block line) ls fun statement taken =>
    HasStatementRow statement (⟨.keyword .repeter, span⟩ :: taken) := by
  refine (hblock _ _).bind fun body _ _ hbody => ?_
  refine (takes_expect (.keyword .jusqua)).bind fun _ taken _ ⟨jusqua, hjusqua⟩ => ?_
  subst hjusqua
  refine takes_expression.bind fun condition test _ htest => takes_pure fun n => ?_
  obtain ⟨row, hrow, rfl⟩ := hbody (n + 1)
  exact ⟨_, .repeatLoop span jusqua hrow htest.1, by simp⟩

theorem takes_forBody {before after : List Lexeme} {until_ : Lexeme} {name : String}
    {first last : Expr} {step : Option Expr} (hbefore : Flat before)
    (huntil : until_.token = .keyword .a ∨ until_.token = .keyword .jusqua) (hafter : Flat after) :
    Takes (do
      let _ ← accept (.keyword .faire)
      let body ← block [.keyword .finPour]
      expect (.keyword .finPour)
      return .forLoop name first last step body line) ls fun statement taken =>
        HasStatementRow statement
          (⟨.keyword .pour, span⟩ :: (before ++ until_ :: (after ++ taken))) := by
  refine (takes_optional .faire).bind fun _ faire _ hfaire => ?_
  refine (hblock _ _).bind fun body _ _ hbody => ?_
  refine (takes_expect (.keyword .finPour)).bind fun _ taken _ ⟨finPour, hend⟩ => ?_
  subst hend
  refine takes_pure fun n => ?_
  obtain ⟨row, hrow, rfl⟩ := hbody (n + 1)
  exact ⟨_, .forLoop span finPour (.mk hbefore huntil hafter hfaire) hrow, by simp⟩

theorem takes_forRest : Takes (forRest block line) ls fun statement taken =>
    HasStatementRow statement (⟨.keyword .pour, span⟩ :: taken) := by
  refine takes_identifier.bind fun name ident _ hname => ?_
  refine (takes_expectEither (.keyword .de) (.punct .assign)).bind fun _ _ _ ⟨de, hde, hword⟩ => ?_
  subst hde
  have hde : de.token.isInline = true := by rcases hword with h | h <;> rw [h] <;> rfl
  refine takes_expression.bind fun first operand _ hfirst => ?_
  have hbefore : Flat (ident ++ de :: operand) := hname.1.append (.cons hde hfirst.1)
  refine (takes_expectEither (.keyword .a) (.keyword .jusqua)).bind fun _ _ _ ⟨a, ha, huntil⟩ => ?_
  subst ha
  refine takes_expression.bind fun last operand' _ hlast => ?_
  refine (takes_accept (.keyword .pas)).bind fun hasStep _ _ hpas => ?_
  obtain ⟨rfl, pas, rfl⟩ | ⟨rfl, rfl⟩ := hpas
  · simp only [if_true, map_eq_pure_bind, bind_assoc, pure_bind]
    refine takes_expression.bind fun step operand'' _ hstep => ?_
    have hafter : Flat (operand' ++ ⟨.keyword .pas, pas⟩ :: operand'') :=
      hlast.1.append (.cons rfl hstep.1)
    refine (takes_forBody hblock span line hbefore huntil hafter).mono fun statement _ h => ?_
    simpa using h
  · simp only [Bool.false_eq_true, if_false, pure_bind]
    refine (takes_forBody hblock span line hbefore huntil hlast.1).mono fun statement _ h => ?_
    simpa using h

end Blocks

/-! ## All statements -/

theorem takes_next_of_head {lexeme : Lexeme} (h : ls.head? = some lexeme) :
    Takes next? ls fun _ taken => taken = [lexeme] := by
  refine takes_next.mono fun found taken ⟨hfound, htaken⟩ => ?_
  rw [htaken, hfound, h]
  rfl

theorem takes_statementWithin (routine : Option RoutineKind) (bound : Nat) :
    Takes (statementWithin routine bound) ls HasStatementRow := by
  induction bound generalizing ls with
  | zero => exact takes_unexpected
  | succ bound ih =>
    have hblock (closing : List Token) (ls : List Lexeme) :
        Takes (blockWithin (statementWithin routine bound) closing bound) ls HasBlockRow :=
      takes_blockWithin (fun _ => ih) closing bound
    refine takes_peek ?_
    split
    · exact takes_unexpected
    · rename_i token span hhead
      split
      case h_9 => exact takes_unexpected
      all_goals refine (takes_next_of_head hhead).bind fun _ taken _ htaken => ?_
      all_goals subst htaken
      · exact takes_assignOrCall rfl _ _
      · exact takes_readTargets rfl _
      · exact takes_writeValues rfl _
      · exact takes_branchRest hblock span _
      · exact takes_forRest hblock span _
      · exact takes_whileRest hblock span _
      · exact takes_repeatRest hblock span _
      · exact takes_returnValue rfl _ _

theorem takes_statement (routine : Option RoutineKind) :
    Takes (statement routine) ls HasStatementRow :=
  takes_get (takes_statementWithin routine _)

theorem takes_block (routine : Option RoutineKind) (closing : List Token) :
    Takes (block routine closing) ls HasBlockRow :=
  takes_get (takes_blockWithin (fun _ => takes_statement routine) closing _)

end Parser
end Pseudocode
