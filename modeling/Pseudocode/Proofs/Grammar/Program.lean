import Pseudocode.Proofs.Grammar.Nesting

/-! # The check of the nesting is sound

What holds of statements and expressions holds of the declarations, routines and layouts that they
are part of, and with that of every program that is parsed:

* `Item.Allowed`: a part of a program is within the limits.
* `leads_program`: all parts of a parsed program are.
* `parse_nesting`: the limits in numbers. -/

namespace Pseudocode
set_option autoImplicit false

namespace Parser

/-! ## Declarations -/

theorem leads_type (s : Scan) : Leads type s fun _ s' => s.depth.Extends 0 s'.depth := by
  refine (leads_next s).bind fun found s₁ ⟨_, hstep⟩ => ?_
  split
  · refine leads_pure ?_
    rw [hstep _ rfl]
    exact s.depth.extends_plain rfl
  · exact leads_unexpected

theorem leads_declaredName (s : Scan) :
    Leads declaredName s fun _ s' => s.depth.Extends 0 s'.depth := by
  refine leads_nextLine fun line => ?_
  refine (leads_identifier s).bind fun name s₁ hname => ?_
  split
  · exact leads_throw
  · exact leads_pure hname

theorem leads_param (s : Scan) : Leads param s fun _ s' => s.depth.Extends 0 s'.depth := by
  refine (leads_declaredName s).bind fun name s₁ hname => ?_
  refine (leads_expect (.punct .colon) s₁).bind fun _ s₂ hs₂ => ?_
  refine (leads_type s₂).bind fun ty s₃ hty => leads_pure ?_
  have hcolon : s₁.depth.Extends 0 s₂.depth := by
    rw [hs₂]
    exact s₁.depth.extends_plain rfl
  exact (hname.trans hcolon).trans hty

theorem leads_varDecl (s : Scan) : Leads varDecl s fun _ _ => True := by
  refine leads_nextLine fun line => ?_
  refine leads_peek fun found _ => ?_
  split
  · refine (leads_next s).bind fun _ s₁ _ => ?_
    refine (leads_accept (.punct .colon) s₁).bind fun _ s₂ _ => ?_
    exact (leads_names leads_declaredName s₂).1.bind fun _ _ _ => leads_pure trivial
  · refine (leads_names leads_declaredName s).1.bind fun _ s₁ _ => ?_
    refine (leads_expect (.punct .colon) s₁).bind fun _ s₂ _ => ?_
    exact (leads_type s₂).bind fun _ _ _ => leads_pure trivial

theorem leads_constDecl (s : Scan) :
    Leads constDecl s fun constant _ => constant.value.Allowed 0 := by
  refine leads_nextLine fun line => ?_
  refine (leads_declaredName s).bind fun name s₁ _ => ?_
  refine (leads_accept (.punct .colon) s₁).bind fun taken s₂ _ => ?_
  have hvalue (ty? : Option Ty) (s : Scan) : Leads (do
      expectEither (.op .equal) (.punct .assign)
      return (⟨name, ty?, ← expression, line⟩ : ConstDecl)) s
      fun constant _ => constant.value.Allowed 0 := by
    refine (leads_expectEither _ _ s).bind fun _ s' _ => ?_
    exact (leads_operand (Nat.zero_le s'.depth.blocks)).bind fun e _ he => leads_pure he.2
  cases taken with
  | true =>
    simp only [if_true, map_eq_pure_bind, bind_assoc, pure_bind]
    exact (leads_type s₂).bind fun ty s₃ _ => hvalue (some ty) s₃
  | false =>
    simp only [Bool.false_eq_true, if_false, pure_bind]
    exact hvalue none s₂

section Sections
variable {α : Type} {declaration : Parser α} {good : α → Prop}
  (hdeclaration : ∀ s, Leads declaration s fun a _ => good a)
include hdeclaration

theorem leads_declarations (starts : List Lexeme → Bool) (bound : Nat) (s : Scan) :
    Leads (declarations starts declaration bound) s fun as _ => ∀ a ∈ as, good a := by
  induction bound generalizing s with
  | zero => exact leads_pure (by simp)
  | succ bound ih =>
    refine (leads_skipSeparators s).bind fun _ s₁ _ => ?_
    refine leads_get ?_
    split
    · refine (hdeclaration s₁).bind fun first s₂ hfirst => ?_
      refine (ih s₂).bind fun rest s₃ hrest => leads_pure ?_
      exact List.forall_mem_cons.2 ⟨hfirst, hrest⟩
    · exact leads_pure (by simp)

theorem leads_declarationSection (word : Keyword) (starts : List Lexeme → Bool) (s : Scan) :
    Leads (declarationSection word starts declaration) s fun as _ => ∀ a ∈ as, good a := by
  refine (leads_expect _ s).bind fun _ s₁ _ => ?_
  refine (leads_accept _ s₁).bind fun _ s₂ _ => ?_
  refine leads_get ?_
  exact leads_declarations hdeclaration starts _ s₂

end Sections

theorem leads_localsWithin (bound : Nat) (s : Scan) :
    Leads (localsWithin bound) s fun _ _ => True := by
  induction bound generalizing s with
  | zero => exact leads_pure trivial
  | succ bound ih =>
    refine (leads_skipSeparators s).bind fun _ s₁ _ => ?_
    refine leads_get ?_
    split
    · refine (leads_declarationSection leads_varDecl .vars startsVarDecl s₁).bind fun _ s₂ _ => ?_
      exact (ih s₂).bind fun _ _ _ => leads_pure trivial
    · split
      · refine (leads_varDecl s₁).bind fun _ s₂ _ => ?_
        exact (ih s₂).bind fun _ _ _ => leads_pure trivial
      · exact leads_pure trivial

/-! ## Routines -/

theorem leads_returnType (kind : RoutineKind) (s : Scan) :
    Leads (returnType kind) s fun _ _ => True := by
  cases kind with
  | procedure => exact leads_pure trivial
  | function =>
    refine (leads_expect _ s).bind fun _ s₁ _ => ?_
    exact (leads_type s₁).bind fun _ _ _ => leads_pure trivial

theorem leads_routineRest (kind : RoutineKind) (line : Nat) (s : Scan) :
    Leads (routineRest kind line) s fun routine _ => AllowedBlock routine.body 0 := by
  refine (leads_declaredName s).bind fun name s₁ _ => ?_
  refine (leads_expect _ s₁).bind fun _ s₂ _ => ?_
  refine (leads_names leads_param s₂).2.bind fun params s₃ _ => ?_
  refine (leads_returnType kind s₃).bind fun returnType? s₄ _ => ?_
  refine leads_get ?_
  refine (leads_localsWithin _ s₄).bind fun locals s₅ _ => ?_
  refine (leads_accept _ s₅).bind fun _ s₆ _ => ?_
  refine (leads_block (some kind) _ s₆).bind fun body s₇ hbody => ?_
  exact (leads_expect _ s₇).bind fun _ _ _ => leads_pure hbody

theorem leads_routine (s : Scan) :
    Leads routine? s fun found _ =>
      ∀ routine, found = some routine → AllowedBlock routine.body 0 := by
  have hrest (kind : RoutineKind) (line : Nat) (s : Scan) :
      Leads (some <$> routineRest kind line) s
        fun found _ => ∀ routine, found = some routine → AllowedBlock routine.body 0 := by
    refine (leads_routineRest kind line s).map fun routine _ hroutine other heq => ?_
    cases heq
    exact hroutine
  refine leads_peek fun found _ => ?_
  split
  · exact (leads_next s).bind fun _ s₁ _ => hrest .function _ s₁
  · exact (leads_next s).bind fun _ s₁ _ => hrest .procedure _ s₁
  · exact leads_pure fun routine h => by cases h

end Parser

/-! ## Parts of a program -/

/-- The part of a program is within the limits. -/
def Item.Allowed : Item → Prop
  | .constants ds => ∀ constant ∈ ds, constant.value.Allowed 0
  | .vars _ => True
  | .routine r => AllowedBlock r.body 0
  | .statements ss => AllowedBlock ss 0

namespace Parser

theorem leads_section (s : Scan) :
    Leads section? s fun found _ => ∀ item, found = some item → item.Allowed := by
  refine leads_peek fun found _ => ?_
  split
  · refine (leads_declarationSection leads_constDecl _ _ s).map fun constants _ h item heq => ?_
    cases heq
    exact h
  · refine (leads_declarationSection leads_varDecl _ _ s).map fun vars _ _ item heq => ?_
    cases heq
    trivial
  · refine (leads_routine s).map fun routine _ h item heq => ?_
    obtain ⟨found, rfl, rfl⟩ := Option.map_eq_some_iff.1 heq
    exact h found rfl

theorem leads_sectionsWithin (bound : Nat) (s : Scan) :
    Leads (sectionsWithin bound) s fun items _ => ∀ item ∈ items, item.Allowed := by
  induction bound generalizing s with
  | zero => exact leads_pure (by simp)
  | succ bound ih =>
    refine (leads_skipSeparators s).bind fun _ s₁ _ => ?_
    refine (leads_section s₁).bind fun found s₂ hfound => ?_
    cases found with
    | none => exact leads_pure (by simp)
    | some item =>
      refine (ih s₂).bind fun items s₃ hitems => leads_pure ?_
      exact List.forall_mem_cons.2 ⟨hfound item rfl, hitems⟩

theorem leads_routinesToEnd (bound : Nat) (s : Scan) :
    Leads (routinesToEnd bound) s fun items _ => ∀ item ∈ items, item.Allowed := by
  induction bound generalizing s with
  | zero => exact leads_pure (by simp)
  | succ bound ih =>
    refine (leads_skipSeparators s).bind fun _ s₁ _ => ?_
    refine (leads_routine s₁).bind fun found s₂ hfound => ?_
    cases found with
    | none =>
      refine leads_peek fun found _ => ?_
      cases found with
      | none => exact leads_pure (by simp)
      | some lexeme => exact leads_throw
    | some routine =>
      refine (ih s₂).bind fun items s₂ hitems => leads_pure ?_
      exact List.forall_mem_cons.2 ⟨hfound routine rfl, hitems⟩

theorem leads_scriptWithin (started : Bool) (bound : Nat) (s : Scan) :
    Leads (scriptWithin started bound) s fun items _ => ∀ item ∈ items, item.Allowed := by
  induction bound generalizing started s with
  | zero => exact leads_pure (by simp)
  | succ bound ih =>
    refine (leads_skipSeparators s).bind fun _ s₁ _ => ?_
    refine leads_get ?_
    split
    · exact leads_pure (by simp)
    · split
      · exact leads_throw
      · refine (leads_section s₁).bind fun found s₂ hfound => ?_
        cases found with
        | some item =>
          refine (ih started s₂).bind fun items s₃ hitems => leads_pure ?_
          exact List.forall_mem_cons.2 ⟨hfound item rfl, hitems⟩
        | none =>
          dsimp only
          split
          · refine (leads_varDecl s₂).bind fun declaration s₃ _ => ?_
            refine (ih started s₃).bind fun items s₄ hitems => leads_pure ?_
            exact List.forall_mem_cons.2 ⟨trivial, hitems⟩
          · refine (counts_statement none 0 s₂ (Nat.zero_le _)).bind fun first s₃ hfirst => ?_
            refine (ih true s₃).bind fun items s₄ hitems => leads_pure ?_
            exact List.forall_mem_cons.2 ⟨hfirst.2, hitems⟩

theorem leads_heading (s : Scan) : Leads heading? s fun _ _ => True := by
  refine (leads_accept _ s).bind fun taken s₁ _ => ?_
  cases taken with
  | false => exact leads_pure trivial
  | true =>
    refine (leads_accept _ s₁).bind fun _ s₂ _ => ?_
    exact (leads_identifier s₂).map fun _ _ _ => trivial

theorem leads_mainPart (s : Scan) :
    Leads mainPart s fun items _ => ∀ item ∈ items, item.Allowed := by
  refine (leads_accept _ s).bind fun taken s₁ _ => ?_
  cases taken with
  | true =>
    refine (leads_block none _ s₁).bind fun statements s₂ hstatements => ?_
    refine (leads_expect _ s₂).bind fun _ s₃ _ => ?_
    refine leads_get ?_
    refine (leads_routinesToEnd _ s₃).bind fun items s₄ hitems => leads_pure ?_
    exact List.forall_mem_cons.2 ⟨hstatements, hitems⟩
  | false =>
    refine leads_get ?_
    exact leads_scriptWithin false _ s₁

theorem leads_program (s : Scan) :
    Leads program s fun parsed _ =>
      ∃ name items, parsed = .ofItems name items ∧ ∀ item ∈ items, item.Allowed := by
  refine (leads_skipSeparators s).bind fun _ s₁ _ => ?_
  refine (leads_heading s₁).bind fun name s₂ _ => ?_
  refine leads_get ?_
  refine (leads_sectionsWithin _ s₂).bind fun sections s₃ hsections => ?_
  refine (leads_mainPart s₃).bind fun main s₄ hmain => leads_pure ⟨name, sections ++ main, rfl, ?_⟩
  exact List.forall_mem_append.2 ⟨hsections, hmain⟩

end Parser

/-! ## Programs -/

namespace Program
variable {name : Option String} {items : List Item} (h : ∀ item ∈ items, item.Allowed)
include h

theorem ofItems_statements : AllowedBlock (ofItems name items).statements 0 := by
  refine allowedBlock_iff.2 fun statement hstatement => ?_
  obtain ⟨item, hitem, hmem⟩ := List.mem_flatMap.1 hstatement
  have hallowed := h item hitem
  cases item with
  | statements statements => exact allowedBlock_iff.1 hallowed statement hmem
  | constants | vars | routine => cases hmem

theorem ofItems_routines : ∀ routine ∈ (ofItems name items).routines,
    AllowedBlock routine.body 0 := by
  intro routine hroutine
  obtain ⟨item, hitem, hmem⟩ := List.mem_flatMap.1 hroutine
  have hallowed := h item hitem
  cases item with
  | routine found =>
    obtain rfl := List.mem_singleton.1 hmem
    exact hallowed
  | constants | vars | statements => cases hmem

theorem ofItems_constants : ∀ constant ∈ (ofItems name items).constants,
    constant.value.Allowed 0 := by
  intro constant hconstant
  obtain ⟨item, hitem, hmem⟩ := List.mem_flatMap.1 hconstant
  have hallowed := h item hitem
  cases item with
  | constants declarations => exact hallowed constant hmem
  | vars | routine | statements => cases hmem

end Program

/-- The row of tokens of a program that passed the check, from its start on. -/
def Scan.start {lexemes : List Lexeme} (h : checkNesting lexemes = .ok ()) : Scan where
  depth := .zero
  rest := lexemes
  nesting := by decide
  operators := by decide
  passes := h

/-- A program that is parsed passed the check, and its parser ran on the same tokens. -/
theorem parse_eq_ok {lexemes : List Lexeme} {program : Program}
    (h : parse lexemes = .ok program) :
    checkNesting lexemes = .ok () ∧ ∃ rest, Parser.program lexemes = .ok (program, rest) := by
  unfold parse at h
  split at h
  · cases h
  · obtain ⟨_, hcheck, hprogram⟩ := exists_of_bind_eq_ok h
    refine ⟨hcheck, ?_⟩
    split at hprogram
    · rename_i hparsed
      cases hprogram
      exact ⟨_, hparsed⟩
    · cases hprogram

theorem Expr.Allowed.limits {e : Expr} {n : Nat} (h : e.Allowed n) :
    e.operators ≤ 1000 ∧ n + e.callDepth ≤ 100 ∧ e.depth ≤ 1101 := by
  have hoperators : e.operators ≤ 1000 := h.operators
  have hcalls : n + e.callDepth ≤ 100 := h.calls
  have hdepth := e.depth_le
  exact ⟨hoperators, hcalls, by omega⟩

/-- In every program that is parsed, statements stand inside of at most 100 blocks and expressions
have at most 1000 operators; calls are nested at most 100 deep, together with the blocks around
them, so that no expression is deeper than 1101. -/
theorem parse_nesting {lexemes : List Lexeme} {program : Program}
    (h : parse lexemes = .ok program) :
    (∀ block, (block = program.statements ∨ ∃ routine ∈ program.routines, block = routine.body) →
      ∀ n statement, Encloses block n statement → n ≤ 100 ∧ ∀ e ∈ statement.exprs,
        e.operators ≤ 1000 ∧ n + e.callDepth ≤ 100 ∧ e.depth ≤ 1101) ∧
    ∀ constant ∈ program.constants, constant.value.operators ≤ 1000 ∧
      constant.value.callDepth ≤ 100 ∧ constant.value.depth ≤ 1101 := by
  obtain ⟨hcheck, rest, hparsed⟩ := parse_eq_ok h
  obtain ⟨_, -, name, items, rfl, hitems⟩ :=
    Parser.leads_program (Scan.start hcheck) program rest hparsed
  constructor
  · intro block hblock n statement hencloses
    have hallowed : AllowedBlock block 0 := by
      rcases hblock with rfl | ⟨routine, hroutine, rfl⟩
      · exact Program.ofItems_statements hitems
      · exact Program.ofItems_routines hitems routine hroutine
    have hstatement := hallowed n statement hencloses
    rw [Nat.zero_add] at hstatement
    exact ⟨hstatement.blocks, fun e he => (hstatement.exprs e he).limits⟩
  · intro constant hconstant
    have hlimits := (Program.ofItems_constants hitems constant hconstant).limits
    rw [Nat.zero_add] at hlimits
    exact hlimits

/-- A call with an operator, in one block. -/
theorem parse_nesting_branch :
    let call : Expr := .call "f" [.unary .negate (.var "y" 1) 1] 1
    let statement : Statement := .assign "x" call 1
    let program : Program :=
      ⟨none, [], [], [], [.branch (.literal (.boolean true) 1) [statement] none 1]⟩
    let tokens : List Token :=
      [.keyword .si, .literal (.boolean true), .keyword .alors, .ident "x", .punct .assign,
        .ident "f", .punct .lparen, .op .sub, .ident "y", .punct .rparen, .keyword .finSi]
    parse (tokens.map fun token => ⟨token, ⟨1, 1⟩⟩) = .ok program ∧
      Encloses program.statements 1 statement ∧ 1 + call.callDepth ≤ 100 ∧ call.depth ≤ 1101 := by
  intro call statement program tokens
  have hparse : parse (tokens.map fun token => ⟨token, ⟨1, 1⟩⟩) = .ok program := rfl
  have hencloses : Encloses program.statements 1 statement :=
    .inside List.mem_cons_self List.mem_cons_self (.here List.mem_cons_self)
  have hlimits := ((parse_nesting hparse).1 _ (.inl rfl) 1 statement hencloses).2 call
    List.mem_cons_self
  exact ⟨hparse, hencloses, hlimits.2.1, hlimits.2.2⟩

end Pseudocode
