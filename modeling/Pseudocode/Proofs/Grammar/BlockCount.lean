import Pseudocode.Proofs.Grammar.RowCount

/-! # The count of open blocks

The `FAIRE` of a `POUR` may be left out, and then the `JUSQU'A` that closes a `REPETER` can stand
where the check takes it for a part of the first line of the loop. Such a `REPETER` stays counted.

* `Row.Strands`: a program where this happens.
* `parsed_block_count`: everywhere else the count is exact, and copies of the program pass. -/

namespace Pseudocode
set_option autoImplicit false

open Row (level)

/-! ## Stranded blocks -/

/-- Whether the check takes a `JUSQU'A` after the token for that of a `REPETER` again. -/
def Token.endsHeader (token : Token) : Bool := token == .keyword .faire || token.isSeparator

/-- The `JUSQU'A` of a `REPETER` follows a `POUR` with neither `FAIRE` nor a separator between. -/
def Row.Strands (row : Row) : Prop :=
  ∃ front pour middle jusqua back, row = front ++ pour :: (middle ++ jusqua :: back) ∧
    pour.1.token = .keyword .pour ∧ (∀ entry ∈ middle, entry.1.token.endsHeader = false) ∧
    jusqua.1.token = .keyword .jusqua ∧ jusqua.2 < Row.opened pour.2 middle

theorem Depth.forHeader_step_iff {d : Depth} {token : Token} : (d.step token).forHeader = true ↔
    token = .keyword .pour ∨ d.forHeader = true ∧ token.endsHeader = false := by
  cases token with
  | keyword word =>
    cases word
    case jusqua =>
      have hsame : (d.step (.keyword .jusqua)).forHeader = d.forHeader := by
        simp only [step, structureStep]
        split <;> rfl
      simp [hsame, Token.endsHeader, Token.isSeparator]
    all_goals simp [step, structureStep, Token.endsHeader, Token.isSeparator]
  | punct mark => cases mark <;> simp [step, structureStep, Token.endsHeader, Token.isSeparator]
  | literal | type | op | ident | newline =>
    simp [step, structureStep, Token.endsHeader, Token.isSeparator]

namespace Row
variable {d : Depth} {n : Nat} {row : Row}

/-- For the check, the first line of a `POUR` goes on until it is ended. -/
theorem forHeader_after_iff : (d.after row.lexemes).forHeader = true ↔
    (d.forHeader = true ∧ ∀ entry ∈ row, entry.1.token.endsHeader = false) ∨
      ∃ front pour middle, row = front ++ pour :: middle ∧ pour.1.token = .keyword .pour ∧
        ∀ entry ∈ middle, entry.1.token.endsHeader = false := by
  induction row generalizing d with
  | nil => simp
  | cons entry row ih =>
    rw [lexemes_cons, Depth.after_cons, ih, Depth.forHeader_step_iff]
    constructor
    · rintro (⟨hpour | ⟨hopen, hkeeps⟩, hrow⟩ | ⟨front, pour, middle, rfl, hpour, hmiddle⟩)
      · exact .inr ⟨[], entry, row, rfl, hpour, hrow⟩
      · exact .inl ⟨hopen, List.forall_mem_cons.2 ⟨hkeeps, hrow⟩⟩
      · exact .inr ⟨entry :: front, pour, middle, rfl, hpour, hmiddle⟩
    · rintro (⟨hopen, hall⟩ | ⟨front, pour, middle, hrow, hpour, hmiddle⟩)
      · obtain ⟨hkeeps, hrow⟩ := List.forall_mem_cons.1 hall
        exact .inl ⟨.inr ⟨hopen, hkeeps⟩, hrow⟩
      · cases front with
        | nil =>
          obtain ⟨rfl, rfl⟩ := List.cons_eq_cons.1 hrow
          exact .inl ⟨.inl hpour, hmiddle⟩
        | cons _ front =>
          obtain ⟨rfl, rfl⟩ := List.cons_eq_cons.1 hrow
          exact .inr ⟨front, pour, middle, rfl, hpour, hmiddle⟩

theorem stranded_ne_zero_iff : row.stranded d n ≠ 0 ↔
    ∃ front jusqua back, row = front ++ jusqua :: back ∧
      (d.after (lexemes front)).forHeader = true ∧ jusqua.1.token = .keyword .jusqua ∧
        jusqua.2 < opened n front := by
  induction row generalizing d n with
  | nil => simp [stranded]
  | cons entry row ih =>
    have hone (p : Prop) [Decidable p] : (if p then 1 else 0) ≠ 0 ↔ p := by simp
    rw [stranded, ne_eq, Nat.add_eq_zero_iff, not_and_or, ← ne_eq, ← ne_eq, ih, hone]
    constructor
    · rintro (hhere | ⟨front, jusqua, back, rfl, hlater⟩)
      · exact ⟨[], entry, row, rfl, hhere⟩
      · exact ⟨entry :: front, jusqua, back, rfl, hlater⟩
    · rintro ⟨front, jusqua, back, hrow, hhere⟩
      cases front with
      | nil =>
        obtain ⟨rfl, rfl⟩ := List.cons_eq_cons.1 hrow
        exact .inl hhere
      | cons _ front =>
        obtain ⟨rfl, rfl⟩ := List.cons_eq_cons.1 hrow
        exact .inr ⟨front, jusqua, back, rfl, hhere⟩

theorem strands_iff : row.Strands ↔ row.stranded .zero 0 ≠ 0 := by
  rw [stranded_ne_zero_iff]
  constructor
  · rintro ⟨front, pour, middle, jusqua, back, rfl, hpour, hmiddle, hclose⟩
    refine ⟨front ++ pour :: middle, jusqua, back, by simp, ?_, ?_⟩
    · exact forHeader_after_iff.2 (.inr ⟨front, pour, middle, rfl, hpour, hmiddle⟩)
    · rwa [opened_append, opened_cons]
  · rintro ⟨front, jusqua, back, rfl, hopen, hclose⟩
    obtain ⟨hfalse, -⟩ | ⟨front, pour, middle, rfl, hpour, hmiddle⟩ := forHeader_after_iff.1 hopen
    · cases hfalse
    · rw [opened_append, opened_cons] at hclose
      exact ⟨front, pour, middle, jusqua, back, by simp, hpour, hmiddle, hclose⟩

theorem stranded_eq_zero_iff : row.stranded .zero 0 = 0 ↔ ¬row.Strands := by
  rw [strands_iff, not_not]

end Row

/-! ## Exact counts -/

/-- After each token the check has counted the blocks that are open there. -/
def Row.Counted (row : Row) : Prop :=
  ∀ front : Row, front <+: row → (Depth.zero.after front.lexemes).blocks = front.opened 0

namespace Row
variable {row front : Row}

theorem Legal.blocks_prefix (h : row.Legal .zero 0) (hfront : front <+: row) :
    (Depth.zero.after front.lexemes).blocks = front.opened 0 + front.stranded .zero 0 := by
  obtain ⟨back, rfl⟩ := hfront
  have hlegal := (legal_append.1 h).1
  have hzero : Depth.zero.blocks = 0 + 0 := rfl
  rw [hlegal.blocks hzero, Nat.zero_add]

theorem Legal.counted_iff (h : row.Legal .zero 0) : row.Counted ↔ row.stranded .zero 0 = 0 := by
  constructor
  · intro hcounted
    have hend := h.blocks_prefix List.prefix_rfl
    rw [hcounted row List.prefix_rfl] at hend
    omega
  · intro hnone front hfront
    rw [h.blocks_prefix hfront]
    obtain ⟨back, rfl⟩ := hfront
    rw [stranded_append] at hnone
    omega

end Row

/-! ## Copies -/

/-- Any number of copies, each on lines of its own, pass the check. -/
def CopiesPass (lexemes : List Lexeme) : Prop :=
  ∀ span, ∀ copies : List (List Lexeme),
    (∀ copy ∈ copies, copy.map Lexeme.token = lexemes.map Lexeme.token) →
      checkNesting ([⟨.newline, span⟩].intercalate copies) = .ok ()

namespace Depth
variable {d d' : Depth} {ls : List Lexeme}

/-- Only blocks are open, at the start of a line. -/
def lineStart (blocks : Nat) : Depth := ⟨blocks, 0, 0, 0, false⟩

theorem step_newline : d.step .newline = ⟨d.blocks, d.parens, 0, 0, false⟩ := rfl

theorem blocks_le_of_check (hd : d.total ≤ maxNesting) (h : d.check ls = .ok ()) :
    (d.after ls).blocks ≤ maxNesting := by
  induction ls generalizing d with
  | nil =>
    unfold total at hd
    rw [after_nil]
    omega
  | cons lexeme ls ih =>
    obtain ⟨hnesting, -, hrest⟩ := check_cons h
    exact ih hnesting hrest

theorem forHeader_step_congr (h : d.forHeader = d'.forHeader) (token : Token) :
    (d.step token).forHeader = (d'.step token).forHeader := by
  rw [Bool.eq_iff_iff, forHeader_step_iff, forHeader_step_iff, h]

end Depth

theorem Row.stranded_congr {d d' : Depth} (h : d.forHeader = d'.forHeader) {n : Nat} {row : Row} :
    row.stranded d n = row.stranded d' n := by
  induction row generalizing d d' n with
  | nil => rfl
  | cons entry row ih => rw [stranded, stranded, h, ih (Depth.forHeader_step_congr h _)]

section Copies
variable {row : Row} (hrow : ∀ d, row.Runs d 0 0)
include hrow

/-- Every copy leaves its stranded blocks to the next one. -/
theorem Row.after_line (blocks : Nat) :
    ((Depth.lineStart blocks).after row.lexemes).step .newline =
      .lineStart (blocks + row.stranded .zero 0) := by
  have hruns := hrow (.lineStart blocks)
  have hblocks : (Depth.lineStart blocks).blocks = 0 + blocks := (Nat.zero_add blocks).symm
  have hcount := hruns.legal.blocks hblocks
  have hstart : (Depth.lineStart blocks).forHeader = Depth.zero.forHeader := rfl
  rw [hruns.opened, Nat.zero_add, Row.stranded_congr hstart] at hcount
  rw [Depth.step_newline, hcount, hruns.parens]
  rfl

theorem Row.blocks_copies (span : Span) (blocks k : Nat) :
    ((Depth.lineStart blocks).after
      ([⟨.newline, span⟩].intercalate (List.replicate (k + 1) row.lexemes))).blocks =
        blocks + (k + 1) * row.stranded .zero 0 := by
  -- From the front: what the first copy strands is where the others start.
  induction k generalizing blocks with
  | zero =>
    have hend := congrArg Depth.blocks (Row.after_line hrow blocks)
    simpa [Depth.step_newline, Depth.lineStart] using hend
  | succ k ih =>
    rw [List.replicate_succ, List.replicate_succ, List.intercalate_cons_cons, ← List.replicate_succ,
      Depth.after_append, Depth.after_append, Depth.after_cons, Depth.after_nil,
      Row.after_line hrow, ih, Nat.succ_mul (k + 1), Nat.add_assoc, Nat.add_comm (row.stranded _ _)]

theorem Row.copiesPass (hcheck : checkNesting row.lexemes = .ok ())
    (hnone : row.stranded .zero 0 = 0) : CopiesPass row.lexemes := by
  intro span copies hcopies
  induction copies with
  | nil => rfl
  | cons copy copies ih =>
    obtain ⟨hcopy, hothers⟩ := List.forall_mem_cons.1 hcopies
    have hpasses : checkNesting copy = .ok () := (Depth.check_congr hcopy).1.2 hcheck
    cases copies with
    | nil => rwa [List.intercalate_singleton]
    | cons copy' copies =>
      have hline : (Depth.zero.after copy).step .newline = .zero := by
        rw [(Depth.check_congr hcopy).2]
        exact (Row.after_line hrow 0).trans (by rw [hnone]; rfl)
      rw [List.intercalate_cons_cons, List.append_assoc]
      refine Depth.check_append_iff.2 ⟨hpasses, Depth.check_cons_iff.2 ?_⟩
      rw [hline]
      exact ⟨Nat.zero_le _, Nat.zero_le _, ih hothers⟩

theorem Row.copiesPass_iff (hcheck : checkNesting row.lexemes = .ok ()) :
    CopiesPass row.lexemes ↔ row.stranded .zero 0 = 0 := by
  refine ⟨fun hpass => ?_, Row.copiesPass hrow hcheck⟩
  -- If every copy strands a block, one copy more than there may be levels is too many.
  have hmany := hpass ⟨1, 1⟩ (List.replicate (maxNesting + 1) row.lexemes)
    fun copy hcopy => by rw [List.eq_of_mem_replicate hcopy]
  have hle := Depth.blocks_le_of_check (Nat.zero_le _) hmany
  have hcount := Row.blocks_copies hrow ⟨1, 1⟩ 0 maxNesting
  by_contra hsome
  have hmul := Nat.le_mul_of_pos_right (maxNesting + 1) (Nat.pos_of_ne_zero hsome)
  change (Depth.zero.after _).blocks = _ at hcount
  omega

end Copies

/-- The parser takes all tokens of a program. After each of them the check has counted the blocks
that are open there and those that were stranded before. So the count is exact everywhere if and
only if nothing is stranded, and only then any number of copies of the program pass the check. -/
theorem parsed_block_count {lexemes rest : List Lexeme} {program : Program}
    (h : Parser.program lexemes = .ok (program, rest)) :
    rest = [] ∧ (∃ row, ProgramRow program row ∧ row.lexemes = lexemes) ∧
      ∀ row, ProgramRow program row → row.lexemes = lexemes →
        row.opened 0 = 0 ∧
        (∀ front : Row, front <+: row →
          (Depth.zero.after front.lexemes).blocks = front.opened 0 + front.stranded .zero 0) ∧
        (row.Counted ↔ ¬row.Strands) ∧
        (checkNesting lexemes = .ok () → (CopiesPass lexemes ↔ ¬row.Strands)) := by
  obtain ⟨hrest, row, hrow, hlexemes⟩ := Parser.takesAll_program program rest h
  refine ⟨hrest, ⟨row, hrow, hlexemes⟩, ?_⟩
  rintro row hrow rfl
  have hruns := hrow.runs .zero
  rw [← Row.stranded_eq_zero_iff]
  exact ⟨hruns.opened, fun front => hruns.legal.blocks_prefix, hruns.legal.counted_iff,
    Row.copiesPass_iff hrow.runs⟩

/-- `REPETER POUR i DE 1 JUSQU'A 3 FAIRE x <- 1 FINPOUR JUSQU'A VRAI`, on one line. -/
theorem parsed_block_count_one_line :
    let at_ (token : Token) : Lexeme := ⟨token, ⟨1, 1⟩⟩
    let literal (value : Literal) : Expr := .literal value 1
    let loop : Statement := .forLoop "i" (literal (.integer 1)) (literal (.integer 3)) none
      [.assign "x" (literal (.integer 1)) 1] 1
    let program : Program := ⟨none, [], [], [], [.repeatLoop [loop] (literal (.boolean true)) 1]⟩
    let row : Row := [
      (at_ (.keyword .repeter), 1), (at_ (.keyword .pour), 2), (at_ (.ident "i"), 2),
      (at_ (.keyword .de), 2), (at_ (.literal (.integer 1)), 2), (at_ (.keyword .jusqua), 2),
      (at_ (.literal (.integer 3)), 2), (at_ (.keyword .faire), 2), (at_ (.ident "x"), 2),
      (at_ (.punct .assign), 2), (at_ (.literal (.integer 1)), 2), (at_ (.keyword .finPour), 1),
      (at_ (.keyword .jusqua), 0), (at_ (.literal (.boolean true)), 0)]
    Parser.program row.lexemes = .ok (program, []) ∧ ProgramRow program row ∧ row.Counted ∧
      CopiesPass row.lexemes := by
  intro at_ literal loop program row
  have hparsed : Parser.program row.lexemes = .ok (program, []) := rfl
  have hone (token : Token) (h : token.isInline = true) : Flat [at_ token] := .token h
  have hassign : StatementRow 2 (.assign "x" (literal (.integer 1)) 1)
      (level 2 [at_ (.ident "x"), at_ (.punct .assign), at_ (.literal (.integer 1))]) :=
    .simple rfl (.cons rfl (.cons rfl (hone _ rfl)))
  have hheader : ForHeader [at_ (.ident "i"), at_ (.keyword .de), at_ (.literal (.integer 1)),
      at_ (.keyword .jusqua), at_ (.literal (.integer 3)), at_ (.keyword .faire)] :=
    @ForHeader.mk [_, _, _] [_] [_] (at_ (.keyword .jusqua))
      (.cons rfl (.cons rfl (hone _ rfl))) (.inr rfl) (hone _ rfl) (.written ⟨1, 1⟩)
  have hloop : StatementRow 1 loop _ := .forLoop ⟨1, 1⟩ ⟨1, 1⟩ hheader (.cons hassign .nil)
  have hrepeat : StatementRow 0 (.repeatLoop [loop] (literal (.boolean true)) 1) row :=
    .repeatLoop ⟨1, 1⟩ ⟨1, 1⟩ (.cons hloop .nil) (hone (.literal (.boolean true)) rfl)
  have hrow : ProgramRow program row :=
    ⟨none, [.statements program.statements], rfl, .cons (.statements (.cons hrepeat .nil)) .nil⟩
  obtain ⟨-, -, hcounts⟩ := parsed_block_count hparsed
  obtain ⟨-, -, hcounted, hcopies⟩ := hcounts row hrow rfl
  have hzero : row.stranded .zero 0 = 0 := by decide
  have hnone := Row.stranded_eq_zero_iff.1 hzero
  exact ⟨hparsed, hrow, hcounted.2 hnone, (hcopies rfl).2 hnone⟩

/-- `POUR i DE 1 A 3 REPETER x <- 1 JUSQU'A VRAI FINPOUR`, and a hundred such lines. -/
theorem parsed_block_count_stranded :
    let at_ (token : Token) : Lexeme := ⟨token, ⟨1, 1⟩⟩
    let literal (value : Literal) : Expr := .literal value 1
    let loop : Statement := .repeatLoop [.assign "x" (literal (.integer 1)) 1]
      (literal (.boolean true)) 1
    let program : Program := ⟨none, [], [], [], [.forLoop "i" (literal (.integer 1))
      (literal (.integer 3)) none [loop] 1]⟩
    let line : List Lexeme := [.keyword .pour, .ident "i", .keyword .de, .literal (.integer 1),
      .keyword .a, .literal (.integer 3), .keyword .repeter, .ident "x", .punct .assign,
      .literal (.integer 1), .keyword .jusqua, .literal (.boolean true), .keyword .finPour].map at_
    parse line = .ok program ∧ (Depth.zero.after line).blocks = 1 ∧
      checkNesting ([at_ .newline].intercalate (List.replicate 100 line)) =
        .error ⟨.nestingTooDeep 100, 1⟩ := by
  intro at_ literal loop program line
  exact ⟨rfl, rfl, by decide +kernel⟩

end Pseudocode
