import Pseudocode.Proofs.Grammar.ExpressionDepth

/-! # Statements and the blocks around them

The check counts blocks without knowing where they really end. It may count one too many: in a loop
over integers whose first line is still open, the `JUSQU'A` of a `REPETER` closes nothing. But it
never counts one too few, since the only `JUSQU'A` that closes no block stands in the first line of
such a loop, and that line is open there. So inside of `n` blocks at least `n` are counted.

* `Encloses`: a statement stands in a block, inside of so many further blocks.
* `AllowedBlock`: all statements of a block are within the limits.
* `counts_statement`, `leads_block`: this holds of all statements that are parsed. -/

namespace Pseudocode
set_option autoImplicit false

/-! ## Statements in blocks -/

namespace Statement

/-- The expressions that are part of the statement itself. -/
def exprs : Statement → List Expr
  | .assign _ value _ => [value]
  | .read _ _ => []
  | .write values _ => values
  | .branch condition _ _ _ => [condition]
  | .forLoop _ first last step _ _ => first :: last :: step.toList
  | .whileLoop condition _ _ => [condition]
  | .repeatLoop _ condition _ => [condition]
  | .call _ arguments _ => arguments
  | .ret value _ => value.toList

/-- The blocks of a statement. -/
def blocks : Statement → List (List Statement)
  | .branch _ thenBlock elseBlock _ => thenBlock :: elseBlock.toList
  | .forLoop _ _ _ _ body _ | .whileLoop _ body _ | .repeatLoop body _ _ => [body]
  | _ => []

end Statement

/-- The statement stands in the block, inside of so many blocks of other statements. -/
inductive Encloses : List Statement → Nat → Statement → Prop where
  | here {block : List Statement} {statement : Statement} :
      statement ∈ block → Encloses block 0 statement
  | inside {block inner : List Statement} {outer statement : Statement} {n : Nat} :
      outer ∈ block → inner ∈ outer.blocks → Encloses inner n statement →
      Encloses block (n + 1) statement

/-! ## The limits -/

/-- The expression is within the limits, inside of so many blocks. -/
structure Expr.Allowed (e : Expr) (n : Nat) : Prop where
  operators : e.operators ≤ maxLineOperators
  calls : n + e.callDepth ≤ maxNesting

/-- The statement and its expressions are within the limits, inside of so many blocks. -/
structure Statement.Allowed (statement : Statement) (n : Nat) : Prop where
  blocks : n ≤ maxNesting
  exprs : ∀ e ∈ statement.exprs, e.Allowed n

/-- All statements of a block are within the limits, when the block is inside of so many. -/
def AllowedBlock (block : List Statement) (n : Nat) : Prop :=
  ∀ k statement, Encloses block k statement → statement.Allowed (n + k)

theorem allowedBlock_iff {block : List Statement} {n : Nat} :
    AllowedBlock block n ↔ ∀ statement ∈ block, AllowedBlock [statement] n := by
  constructor
  · intro h statement hstatement k other hencloses
    cases hencloses with
    | here hmem =>
      obtain rfl := List.mem_singleton.1 hmem
      exact h 0 other (.here hstatement)
    | inside hmem hinner hdeep =>
      obtain rfl := List.mem_singleton.1 hmem
      exact h _ other (.inside hstatement hinner hdeep)
  · intro h k statement hencloses
    cases hencloses with
    | here hmem => exact h statement hmem 0 statement (.here List.mem_cons_self)
    | inside hmem hinner hdeep =>
      exact h _ hmem _ statement (.inside List.mem_cons_self hinner hdeep)

theorem allowedBlock_nil (n : Nat) : AllowedBlock [] n :=
  allowedBlock_iff.2 fun _ h => by cases h

theorem allowedBlock_cons {first : Statement} {rest : List Statement} {n : Nat}
    (hfirst : AllowedBlock [first] n) (hrest : AllowedBlock rest n) :
    AllowedBlock (first :: rest) n :=
  allowedBlock_iff.2 (List.forall_mem_cons.2 ⟨hfirst, allowedBlock_iff.1 hrest⟩)

/-- A statement by itself: what it is made of, and its blocks inside of one more. -/
theorem allowedBlock_single {statement : Statement} {n : Nat} (h : statement.Allowed n)
    (hblocks : ∀ inner ∈ statement.blocks, AllowedBlock inner (n + 1)) :
    AllowedBlock [statement] n := by
  intro k other hencloses
  cases hencloses with
  | here hmem =>
    obtain rfl := List.mem_singleton.1 hmem
    exact h
  | @inside _ inner outer _ k hmem hinner hdeep =>
    obtain rfl := List.mem_singleton.1 hmem
    have hother := hblocks inner hinner k other hdeep
    rw [Nat.add_right_comm] at hother
    exact hother

/-- An expression that was read where at least so much is open. -/
theorem Expr.Fits.allowed {e : Expr} {s s' : Scan} {n : Nat} (h : e.Fits s.depth s'.depth)
    (hn : n ≤ s.depth.blocks + s.depth.parens) : e.Allowed n := by
  have hoperators := h.line.operators
  have hcalls := h.calls
  have hlimit := s'.operators
  exact ⟨by omega, by omega⟩

theorem Expr.Allowed.mono {e : Expr} {n k : Nat} (h : e.Allowed k) (hn : n ≤ k) : e.Allowed n := by
  have hcalls := h.calls
  exact ⟨h.operators, by omega⟩

/-! ## The two uses of `JUSQU'A` -/

theorem Depth.blocks_jusqua (d : Depth) :
    d.blocks - 1 ≤ (d.step (.keyword .jusqua)).blocks := by
  simp only [Depth.step, Depth.structureStep]
  split <;> simp

theorem Depth.extends_jusqua (d : Depth) (h : d.forHeader = true) :
    d.Extends 0 (d.step (.keyword .jusqua)) := by
  simp only [Depth.step, Depth.structureStep, h, if_true]
  exact ⟨rfl, rfl, h.symm, Nat.le_refl _⟩

namespace Parser

/-! ## Statements without blocks -/

/-- At least so many blocks are counted, and the statements are within the limits inside of them. -/
def Leaves (n : Nat) (block : List Statement) (s : Scan) : Prop :=
  n ≤ s.depth.blocks ∧ AllowedBlock block n

theorem leaves_simple {n : Nat} {statement : Statement} {s : Scan} (hn : n ≤ s.depth.blocks)
    (hexprs : ∀ e ∈ statement.exprs, e.Allowed n) (hblocks : statement.blocks = []) :
    Leaves n [statement] s := by
  have hlimit := s.blocks_le
  refine ⟨hn, allowedBlock_single ⟨by omega, hexprs⟩ fun inner hinner => ?_⟩
  rw [hblocks] at hinner
  cases hinner

section Simple
variable {n : Nat} {s : Scan} (hn : n ≤ s.depth.blocks)
include hn

theorem leads_operand :
    Leads expression s fun e s' => n ≤ s'.depth.blocks ∧ e.Allowed n := by
  refine (leads_expression s).mono fun e s' he => ?_
  have hblocks := he.line.blocks
  exact ⟨by omega, he.allowed (by omega)⟩

theorem leads_closedOperands :
    Leads (closedList expression) s fun es s' => n ≤ s'.depth.blocks ∧ ∀ e ∈ es, e.Allowed n := by
  refine (leads_closedList Expr.operators (fun k e => e.Allowed k) (fun s => ?_) s).mono
    fun es s' ⟨hcloses, hes⟩ => ?_
  · exact (leads_expression s).mono fun e s' he => ⟨he.line, he.allowed (Nat.le_refl _)⟩
  · have hblocks := hcloses.blocks
    exact ⟨by omega, fun e he => (hes e he).mono (by omega)⟩

theorem leads_openOperands :
    Leads (openList expression) s fun es s' => n ≤ s'.depth.blocks ∧ ∀ e ∈ es, e.Allowed n := by
  refine (leads_openList Expr.operators (fun k e => e.Allowed k) (fun s => ?_) s).mono
    fun es s' ⟨hextends, hes⟩ => ?_
  · exact (leads_expression s).mono fun e s' he => ⟨he.line, he.allowed (Nat.le_refl _)⟩
  · have hblocks := hextends.blocks
    exact ⟨by omega, fun e he => (hes e he).mono (by omega)⟩

theorem leads_assignOrCall (name : String) (line : Nat) :
    Leads (assignOrCall name line) s fun st s' => Leaves n [st] s' := by
  have hassign {s : Scan} (hn : n ≤ s.depth.blocks) :
      Leads (do return .assign name (← expression) line) s fun st s' => Leaves n [st] s' := by
    refine (leads_operand hn).bind fun e s' ⟨hn', he⟩ => leads_pure (leaves_simple hn' ?_ rfl)
    simpa [Statement.exprs] using he
  refine (leads_next s).bind fun found s₁ ⟨_, hstep⟩ => ?_
  split
  · have hblocks : s₁.depth.blocks = s.depth.blocks := by rw [hstep _ rfl]; rfl
    exact hassign (by omega)
  · have hblocks : s₁.depth.blocks = s.depth.blocks := by rw [hstep _ rfl]; rfl
    exact hassign (by omega)
  · have hblocks : s₁.depth.blocks = s.depth.blocks := by rw [hstep _ rfl]; rfl
    refine (leads_closedOperands (n := n) (by omega)).bind fun es s₂ ⟨hn₂, hes⟩ => ?_
    exact leads_pure (leaves_simple hn₂ hes rfl)
  · exact leads_unexpected

theorem leads_readTargets (line : Nat) :
    Leads (readTargets line) s fun st s' => Leaves n [st] s' := by
  refine (leads_accept (.punct .lparen) s).bind fun taken s₁ ⟨htaken, hleft⟩ => ?_
  cases taken with
  | true =>
    have hblocks₁ : s₁.depth.blocks = s.depth.blocks := by rw [htaken rfl]; rfl
    refine (leads_names leads_identifier s₁).2.bind fun targets s₂ hblocks₂ => ?_
    split
    · exact leads_throw
    · exact leads_pure (leaves_simple (by omega) (fun e he => by cases he) rfl)
  | false =>
    refine (leads_names leads_identifier s₁).1.bind fun targets s₂ hblocks => ?_
    rw [hleft rfl] at hblocks
    exact leads_pure (leaves_simple (by omega) (fun e he => by cases he) rfl)

theorem leads_writeValues (line : Nat) :
    Leads (writeValues line) s fun st s' => Leaves n [st] s' := by
  refine (leads_accept (.punct .lparen) s).bind fun taken s₁ ⟨htaken, hleft⟩ => ?_
  cases taken with
  | true =>
    have hblocks : s₁.depth.blocks = s.depth.blocks := by rw [htaken rfl]; rfl
    refine (leads_closedOperands (n := n) (by omega)).bind fun es s₂ ⟨hn₂, hes⟩ => ?_
    exact leads_pure (leaves_simple hn₂ hes rfl)
  | false =>
    rw [← hleft rfl] at hn
    refine (leads_openOperands hn).bind fun es s₂ ⟨hn₂, hes⟩ => ?_
    exact leads_pure (leaves_simple hn₂ hes rfl)

theorem leads_returnValue (routine : Option RoutineKind) (line : Nat) :
    Leads (returnValue routine line) s fun st s' => Leaves n [st] s' := by
  refine leads_peek fun found _ => ?_
  dsimp only
  split
  · refine (leads_operand hn).bind fun e s₁ ⟨hn₁, he⟩ => leads_pure (leaves_simple hn₁ ?_ rfl)
    simpa [Statement.exprs] using he
  · exact leads_pure (leaves_simple hn (fun e he => by cases he) rfl)
  · exact leads_throw
  · exact leads_throw
  · exact leads_throw

end Simple

/-! ## Blocks -/

/-- A parser of statements counts the blocks around them, however many these are. -/
def Counts (statement : Parser Statement) : Prop :=
  ∀ (n : Nat) (s : Scan), n ≤ s.depth.blocks → Leads statement s fun st s' => Leaves n [st] s'

theorem leads_blockWithin {statement : Parser Statement} (hstatement : Counts statement)
    (closing : List Token) (bound : Nat) {n : Nat} {s : Scan} (hn : n ≤ s.depth.blocks) :
    Leads (blockWithin statement closing bound) s (Leaves n) := by
  induction bound generalizing s with
  | zero => exact leads_pure ⟨hn, allowedBlock_nil n⟩
  | succ bound ih =>
    refine (leads_skipSeparators s).bind fun _ s₁ hblocks => ?_
    have hn₁ : n ≤ s₁.depth.blocks := by omega
    refine leads_peek fun found _ => ?_
    split
    · exact leads_pure ⟨hn₁, allowedBlock_nil n⟩
    · split
      · exact leads_pure ⟨hn₁, allowedBlock_nil n⟩
      · refine (hstatement n s₁ hn₁).bind fun first s₂ ⟨hn₂, hfirst⟩ => ?_
        refine (ih hn₂).bind fun rest s₃ ⟨hn₃, hrest⟩ => leads_pure ⟨hn₃, ?_⟩
        exact allowedBlock_cons hfirst hrest

theorem leads_faire {n : Nat} {s : Scan} (hn : n ≤ s.depth.blocks) :
    Leads (accept (.keyword .faire)) s fun _ s' => n ≤ s'.depth.blocks := by
  refine (leads_accept (.keyword .faire) s).mono fun taken s' ⟨htaken, hleft⟩ => ?_
  cases taken with
  | true => rw [htaken rfl]; exact hn
  | false => rw [hleft rfl]; exact hn

/-- The parsers of the blocks inside of a statement. -/
def CountsBlocks (block : List Token → Parser (List Statement)) : Prop :=
  ∀ (closing : List Token) (n : Nat) (s : Scan), n ≤ s.depth.blocks →
    Leads (block closing) s (Leaves n)

section Blocks
variable {block : List Token → Parser (List Statement)} (hblock : CountsBlocks block) {n : Nat}
  {s : Scan} (hn : n + 1 ≤ s.depth.blocks)
include hblock hn

theorem leads_branchRest (line : Nat) :
    Leads (branchRest block line) s fun st s' => Leaves n [st] s' := by
  have hlimit := s.blocks_le
  refine (leads_operand hn).bind fun condition s₁ ⟨hn₁, hcondition⟩ => ?_
  refine (leads_expect (.keyword .alors) s₁).bind fun _ s₂ hs₂ => ?_
  have hn₂ : n + 1 ≤ s₂.depth.blocks := by rw [hs₂]; exact hn₁
  refine (hblock _ (n + 1) s₂ hn₂).bind fun thenBlock s₃ ⟨hn₃, hthen⟩ => ?_
  have hcondition' : ∀ e ∈ [condition], e.Allowed n := by
    simpa using hcondition.mono (Nat.le_succ n)
  refine (leads_accept (.keyword .sinon) s₃).bind fun taken s₄ ⟨htaken, hleft⟩ => ?_
  cases taken with
  | true =>
    have hn₄ : n + 1 ≤ s₄.depth.blocks := by rw [htaken rfl]; exact hn₃
    refine (hblock _ (n + 1) s₄ hn₄).bind fun elseBlock s₅ ⟨hn₅, helse⟩ => ?_
    refine (leads_expect (.keyword .finSi) s₅).bind fun _ s₆ hs₆ => leads_pure ⟨?_, ?_⟩
    · rw [hs₆]
      exact Nat.le_sub_one_of_lt hn₅
    · refine allowedBlock_single ⟨by omega, hcondition'⟩ ?_
      simpa [Statement.blocks] using ⟨hthen, helse⟩
  | false =>
    refine (leads_expect (.keyword .finSi) s₄).bind fun _ s₅ hs₅ => leads_pure ⟨?_, ?_⟩
    · rw [hs₅, hleft rfl]
      exact Nat.le_sub_one_of_lt hn₃
    · refine allowedBlock_single ⟨by omega, hcondition'⟩ ?_
      simpa [Statement.blocks] using hthen

theorem leads_whileRest (line : Nat) :
    Leads (whileRest block line) s fun st s' => Leaves n [st] s' := by
  have hlimit := s.blocks_le
  refine (leads_operand hn).bind fun condition s₁ ⟨hn₁, hcondition⟩ => ?_
  refine (leads_faire hn₁).bind fun _ s₂ hn₂ => ?_
  refine (hblock _ (n + 1) s₂ hn₂).bind fun body s₃ ⟨hn₃, hbody⟩ => ?_
  refine (leads_expect (.keyword .finTantQue) s₃).bind fun _ s₄ hs₄ => leads_pure ⟨?_, ?_⟩
  · rw [hs₄]
    exact Nat.le_sub_one_of_lt hn₃
  · refine allowedBlock_single ⟨by omega, ?_⟩ ?_
    · simpa [Statement.exprs] using hcondition.mono (Nat.le_succ n)
    · simpa [Statement.blocks] using hbody

theorem leads_repeatRest (line : Nat) :
    Leads (repeatRest block line) s fun st s' => Leaves n [st] s' := by
  have hlimit := s.blocks_le
  refine (hblock _ (n + 1) s hn).bind fun body s₁ ⟨hn₁, hbody⟩ => ?_
  refine (leads_expect (.keyword .jusqua) s₁).bind fun _ s₂ hs₂ => ?_
  have hn₂ : n ≤ s₂.depth.blocks := by
    have hclosed := s₁.depth.blocks_jusqua
    rw [hs₂]
    omega
  refine (leads_operand hn₂).bind fun condition s₃ ⟨hn₃, hcondition⟩ => leads_pure ⟨hn₃, ?_⟩
  refine allowedBlock_single ⟨by omega, ?_⟩ ?_
  · simpa [Statement.exprs] using hcondition
  · simpa [Statement.blocks] using hbody

theorem leads_forBody {name : String} {first last : Expr} {step : Option Expr}
    (hexprs : ∀ e ∈ first :: last :: step.toList, e.Allowed (n + 1)) (line : Nat) :
    Leads (do
      let _ ← accept (.keyword .faire)
      let body ← block [.keyword .finPour]
      expect (.keyword .finPour)
      return .forLoop name first last step body line) s fun st s' => Leaves n [st] s' := by
  have hlimit := s.blocks_le
  refine (leads_faire hn).bind fun _ s₁ hn₁ => ?_
  refine (hblock _ (n + 1) s₁ hn₁).bind fun body s₂ ⟨hn₂, hbody⟩ => ?_
  refine (leads_expect (.keyword .finPour) s₂).bind fun _ s₃ hs₃ => leads_pure ⟨?_, ?_⟩
  · rw [hs₃]
    exact Nat.le_sub_one_of_lt hn₂
  · refine allowedBlock_single ⟨by omega, fun e he => ?_⟩ ?_
    · exact (hexprs e he).mono (Nat.le_succ n)
    · simpa [Statement.blocks] using hbody

/-- The first line of the loop is open up to its bounds, so a `JUSQU'A` there closes nothing. -/
theorem leads_forRest (hheader : s.depth.forHeader = true) (line : Nat) :
    Leads (forRest block line) s fun st s' => Leaves n [st] s' := by
  have hlimit := s.blocks_le
  refine (leads_identifier s).bind fun name s₁ hs₁ => ?_
  refine (leads_expectEither (.keyword .de) (.punct .assign) s₁).bind fun _ s₂ hs₂ => ?_
  have hline₂ : s.depth.Extends 0 s₂.depth := by
    rcases hs₂ with hs₂ | hs₂ <;> rw [hs₂]
    · exact hs₁.trans (s₁.depth.extends_plain rfl)
    · exact hs₁.trans (s₁.depth.extends_plain rfl)
  refine (leads_expression s₂).bind fun first s₃ hfirst => ?_
  have hline₃ := hline₂.trans hfirst.line
  refine (leads_expectEither (.keyword .a) (.keyword .jusqua) s₃).bind fun _ s₄ hs₄ => ?_
  have hline₄ : s₃.depth.Extends 0 s₄.depth := by
    rcases hs₄ with hs₄ | hs₄ <;> rw [hs₄]
    · exact s₃.depth.extends_plain rfl
    · exact s₃.depth.extends_jusqua (hline₃.header.trans hheader)
  have hblocks₂ := hline₂.blocks
  have hblocks₄ := (hline₃.trans hline₄).blocks
  have hn₄ : n + 1 ≤ s₄.depth.blocks := by omega
  have hfirst' : first.Allowed (n + 1) := hfirst.allowed (by omega)
  refine (leads_operand hn₄).bind fun last s₅ ⟨hn₅, hlast⟩ => ?_
  refine (leads_accept (.keyword .pas) s₅).bind fun taken s₆ ⟨htaken, hleft⟩ => ?_
  cases taken with
  | true =>
    have hn₆ : n + 1 ≤ s₆.depth.blocks := by rw [htaken rfl]; exact hn₅
    simp only [if_true, map_eq_pure_bind, bind_assoc, pure_bind]
    refine (leads_operand hn₆).bind fun step s₇ ⟨hn₇, hstep⟩ => ?_
    exact leads_forBody hblock hn₇ (by simpa using ⟨hfirst', hlast, hstep⟩) line
  | false =>
    have hn₆ : n + 1 ≤ s₆.depth.blocks := by rw [hleft rfl]; exact hn₅
    simp only [Bool.false_eq_true, if_false, pure_bind]
    exact leads_forBody hblock hn₆ (by simpa using ⟨hfirst', hlast⟩) line

end Blocks

/-! ## All statements -/

theorem counts_statementWithin (routine : Option RoutineKind) (bound : Nat) :
    Counts (statementWithin routine bound) := by
  induction bound with
  | zero => exact fun _ _ _ => leads_unexpected
  | succ bound ih =>
    intro n s hn
    have hblock : CountsBlocks fun closing =>
        blockWithin (statementWithin routine bound) closing bound :=
      fun closing n s hn => leads_blockWithin ih closing bound hn
    refine leads_peek fun found hfound => ?_
    split
    · exact leads_unexpected
    · split
      case h_9 => exact leads_unexpected
      all_goals refine (leads_next_of_peek hfound).bind fun _ s₁ hs₁ => ?_
      · exact leads_assignOrCall (by rw [hs₁]; exact hn) _ _
      · exact leads_readTargets (by rw [hs₁]; exact hn) _
      · exact leads_writeValues (by rw [hs₁]; exact hn) _
      · exact leads_branchRest hblock (by rw [hs₁]; exact Nat.succ_le_succ hn) _
      · exact leads_forRest hblock (by rw [hs₁]; exact Nat.succ_le_succ hn) (by rw [hs₁]; rfl) _
      · exact leads_whileRest hblock (by rw [hs₁]; exact Nat.succ_le_succ hn) _
      · exact leads_repeatRest hblock (by rw [hs₁]; exact Nat.succ_le_succ hn) _
      · exact leads_returnValue (by rw [hs₁]; exact hn) _ _

theorem counts_statement (routine : Option RoutineKind) : Counts (statement routine) := by
  intro n s hn
  refine leads_get ?_
  exact counts_statementWithin routine _ n s hn

theorem leads_block (routine : Option RoutineKind) (closing : List Token) (s : Scan) :
    Leads (block routine closing) s fun statements _ => AllowedBlock statements 0 := by
  refine leads_get ?_
  exact (leads_blockWithin (counts_statement routine) closing _ (Nat.zero_le _)).mono
    fun _ _ h => h.2

end Parser
end Pseudocode
