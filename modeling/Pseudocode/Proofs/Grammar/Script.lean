import Pseudocode.Proofs.Grammar.SectionEnd

/-! # Scripts and main blocks

A program may be written as a script, with its statements on the lines after its sections, or with
the statements between `DEBUT` and `FIN`. Both are read as the same program, with one exception: a
script whose last section is one of constants and whose first statement is an assignment declares
more than the constants that are meant, or is refused.

* `WrittenBlock.reads_script`, `reads_scriptPart`: the lines of a script.
* `program_script`, `program_script_taken`: a script without and with the exception.
* `Program.parse_script`: the two ways to write a program. -/

namespace Pseudocode
set_option autoImplicit false
open Pseudocode.Parser

/-! ## Lines of statements -/

/-- Parts with one statement each, which are those of the block. -/
def SplitBlock (block : List Statement) (items : List Item) : Prop :=
  ∃ statements : List Statement, items = statements.map (fun s => .statements [s]) ∧
    unlinedBlock statements = unlinedBlock block

theorem reads_statement {statement : Statement} {tokens : List Token} (h : Written statement tokens)
    (hproper : statement.Proper none) (hblocks : ∀ inner ∈ statement.blocks, ProperBlock none inner) :
    Reads (Parser.statement none) tokens endsLine (·.unlined = statement.unlined) :=
  reads_length fun _ hleft => h.reads _ hproper hblocks (Nat.le_succ_of_le hleft)

/-- A statement follows. -/
abbrev statementNext (next : Option Token) : Prop := next.any Token.startsStatement = true

theorem reads_noSection_statement : Reads section? [] statementNext (· = none) := by
  intro ls rest hls hrest
  obtain rfl := List.map_eq_nil_iff.1 hls
  cases rest with
  | nil => cases hrest
  | cons first rest => exact ⟨none, section?_statement hrest, rfl⟩

theorem Written.startsDeclaration {statement : Statement} {tokens more : List Token}
    {ls : List Lexeme} (h : Written statement tokens)
    (hls : ls.map Lexeme.token = tokens ++ more) : startsDeclaration ls = false := by
  have hvar := h.startsVarDecl hls
  obtain ⟨⟨token, span⟩, rest, rfl, hfirst⟩ := h.row_head hls
  cases token with
  | keyword word => cases word <;> first | exact hvar | cases hfirst
  | _ => exact hvar

section Lines
variable {first : Statement} {rest : List Statement} {firstTokens restTokens : List Token}
  {bound : Nat} {started : Bool}

theorem reads_scriptLine (hfirst : Written first firstTokens) (hproper : first.Proper none)
    (hblocks : ∀ inner ∈ first.blocks, ProperBlock none inner)
    (hrest : Reads (scriptWithin true bound) (.newline :: restTokens) endNext (SplitBlock rest)) :
    Reads (scriptWithin started (bound + 1)) (firstTokens ++ .newline :: restTokens) endNext
      (SplitBlock (first :: rest)) := by
  obtain ⟨head, tail, hhead, hstart⟩ := hfirst.starts
  refine reads_skip (fun next _ => ?_) (reads_get fun ls after hls _ => ?_)
  · rw [hhead]
    exact Token.not_separator_of_startsStatement hstart
  have hrow : (ls ++ after).map Lexeme.token =
      firstTokens ++ (.newline :: restTokens ++ after.map Lexeme.token) := by
    rw [List.map_append, hls, List.append_assoc]
  have hdeclaration := hfirst.startsDeclaration hrow
  obtain ⟨lexeme, row, heq, -⟩ := hfirst.row_head hrow
  rw [heq] at hdeclaration ⊢
  simp only [hdeclaration, Bool.false_and, Bool.false_eq_true, if_false]
  refine reads_noSection_statement.bind (fun next _ => ?_) ?_
  · rw [hhead]
    exact hstart
  rintro _ rfl
  refine (reads_statement hfirst hproper hblocks).bind (fun _ _ => rfl) fun first' hfirst' => ?_
  refine hrest.bind_nil (fun _ h => h) ?_
  rintro _ ⟨statements, rfl, hstatements⟩
  refine reads_pure ⟨first' :: statements, rfl, ?_⟩
  rw [unlinedBlock, hfirst', hstatements, unlinedBlock]

end Lines

theorem WrittenBlock.reads_script {block : List Statement} {tokens : List Token} :
    WrittenBlock block tokens → ProperBlock none block → ∀ bound, block.length < bound →
      ∀ started, Reads (scriptWithin started bound) tokens endNext (SplitBlock block)
  | .nil, _, bound + 1, _, started => by
    refine reads_skip_newline (reads_skip ?_ (reads_get fun ls rest hls hrest => ?_))
    · rintro _ rfl
      rfl
    obtain rfl := List.map_eq_nil_iff.1 hls
    obtain rfl := List.head?_eq_none_iff.1 (Option.map_eq_none_iff.1 hrest)
    exact reads_pure ⟨[], rfl, rfl⟩
  | .cons hfirst hrest, hproper, bound + 1, hbound, started => by
    obtain ⟨hhere, hblocks⟩ := hproper.of_mem List.mem_cons_self
    have hmore := hrest.reads_script (hproper.of_subset (List.subset_cons_self _ _)) bound
      (Nat.lt_of_succ_lt_succ hbound) true
    obtain ⟨restTokens, rfl⟩ := hrest.head
    exact reads_skip_newline (reads_scriptLine hfirst hhere hblocks hmore)

/-- What follows the sections of a script. -/
theorem reads_scriptPart {first : Statement} {rest : List Statement}
    {firstTokens restTokens : List Token} (hfirst : Written first firstTokens)
    (hrest : WrittenBlock rest restTokens) (hproper : ProperBlock none (first :: rest)) :
    Reads mainPart (firstTokens ++ restTokens) endNext (SplitBlock (first :: rest)) := by
  obtain ⟨hhere, hblocks⟩ := hproper.of_mem List.mem_cons_self
  obtain ⟨head, tail, hhead, hstart⟩ := hfirst.starts
  have hlength := hrest.length_lt
  obtain ⟨row, rfl⟩ := hrest.head
  refine reads_decline (fun next _ => ?_) (reads_length fun left hleft => ?_)
  · rw [hhead]
    intro hdebut
    cases hdebut
    cases hstart
  rw [List.length_append] at hleft
  exact reads_scriptLine hfirst hhere hblocks
    (hrest.reads_script (hproper.of_subset (List.subset_cons_self _ _)) left.length (by omega) true)

/-! ## Whole programs -/

theorem Program.ofItems_split (name : Option String) (items : List Item)
    (statements : List Statement) :
    ofItems name (items ++ statements.map fun s => .statements [s]) =
      ofItems name (items ++ [.statements statements]) := by
  have hnone (α : Type) : statements.flatMap (fun _ => ([] : List α)) = [] :=
    List.flatMap_eq_nil_iff.2 fun _ _ => rfl
  simp [ofItems, List.flatMap_map, hnone]

theorem Program.constants_ofItems (name : Option String) (items : List Item) :
    (ofItems name items).constants = items.flatMap Item.declaredConstants := rfl

/-- The part of a program after its heading. -/
def programRest (name : Option String) (bound : Nat) : Parser Program := do
  let sections ← sectionsWithin bound
  let main ← mainPart
  return .ofItems name (sections ++ main)

theorem program_run {name : Option String} {heading row : List Lexeme}
    (hheading : heading.map Lexeme.token = headingTokens name)
    (hseparator : (nextToken? row).any Token.isSeparator = false)
    (hnext : nextToken? row ≠ some (.keyword .algorithme)) :
    ∃ bound, row.length ≤ bound ∧
      Parser.program (heading ++ row) = programRest name (bound + 1) row := by
  cases name with
  | none =>
    obtain rfl := List.map_eq_nil_iff.1 hheading
    refine ⟨row.length, Nat.le_refl _, ?_⟩
    have hnone : heading? row = .ok (none, row) := by
      rw [heading?, bind_ok (accept_neg hnext), if_neg Bool.false_ne_true]
      rfl
    rw [List.nil_append, Parser.program, skip_none hseparator, bind_ok hnone]
    rfl
  | some name =>
    obtain ⟨⟨_, word⟩, heading, rfl, rfl, hrest⟩ := List.map_eq_cons_iff.1 hheading
    obtain ⟨⟨_, place⟩, heading, rfl, rfl, hend⟩ := List.map_eq_cons_iff.1 hrest
    obtain ⟨⟨_, newline⟩, rfl, rfl⟩ := List.map_eq_singleton_iff.1 hend
    -- the end of the line is left to the sections, which skip it
    exact ⟨row.length + 1, Nat.le_succ _, rfl⟩

theorem parse_eq_ok_iff {lexemes : List Lexeme} {lexeme : Lexeme} (hmem : lexeme ∈ lexemes)
    (hlexeme : lexeme.token.isSeparator = false) (hnesting : checkNesting lexemes = .ok ())
    {program : Program} :
    parse lexemes = .ok program ↔ ∃ rest, Parser.program lexemes = .ok (program, rest) := by
  obtain ⟨last, hlast⟩ := exists_lastMeaningful hmem hlexeme
  rw [parse, hlast]
  dsimp only
  rw [hnesting]
  cases hprogram : Parser.program lexemes with
  | ok result =>
    obtain ⟨found, rest⟩ := result
    constructor
    · intro h
      cases h
      exact ⟨rest, rfl⟩
    · rintro ⟨rest', h⟩
      cases h
      rfl
  | error e =>
    constructor
    · intro h
      cases h
    · rintro ⟨rest, h⟩
      cases h

/-! ## The two ways to write a program -/

/-- The program may be written in two ways with the given sections and routines: with its statements
between `DEBUT` and `FIN`, and as a script, with the same statements on the lines that follow. -/
def Program.WrittenTwice (program : Program) (items : List Item) (full script : List Token) : Prop :=
  ∃ itemTokens lines, WrittenItems items itemTokens ∧
    WrittenBlock program.statements (.newline :: lines) ∧
    Program.ofItems program.name (items ++ [.statements program.statements]) = program ∧
    full = headingTokens program.name ++ (itemTokens ++
      .keyword .debut :: (.newline :: lines ++ [.keyword .fin])) ∧
    script = headingTokens program.name ++ (itemTokens ++ lines)

theorem Program.WrittenTwice.written {program : Program} {items : List Item}
    {full script : List Token} (h : program.WrittenTwice items full script) :
    program.Written full := by
  obtain ⟨itemTokens, lines, hitems, hbody, hprogram, hfull, -⟩ := h
  exact ⟨items, itemTokens, .newline :: lines, hitems, hbody, hprogram, hfull⟩

/-- The first statement could be one more line of the last section. -/
def FirstTaken (items : List Item) (statements : List Statement) : Prop :=
  (∃ last, items.getLast? = some last ∧ last.IsConstants) ∧
    ∃ first, statements.head? = some first ∧ first.IsAssignment

theorem WrittenItems.next {items : List Item} {itemTokens : List Token}
    (hitems : WrittenItems items itemTokens) {sections lines : List Lexeme}
    (hsections : sections.map Lexeme.token = itemTokens) {first : Statement}
    {firstTokens more : List Token} (hfirst : Written first firstTokens)
    (hlines : lines.map Lexeme.token = firstTokens ++ more) :
    (nextToken? (sections ++ lines)).any Token.isSeparator = false ∧
      nextToken? (sections ++ lines) ≠ some (.keyword .algorithme) := by
  cases hitems with
  | nil =>
    obtain rfl := List.map_eq_nil_iff.1 hsections
    refine ⟨hfirst.row_not_separator hlines, ?_⟩
    obtain ⟨lexeme, rest, rfl, hstart⟩ := hfirst.row_head hlines
    intro hnext
    obtain ⟨span, row, heq⟩ := eq_cons_of_nextToken? hnext
    cases heq
    cases hstart
  | cons hitem _ =>
    obtain ⟨word, row, rfl, hword⟩ := hitem.head
    rw [nextToken?_append, hsections]
    exact ⟨rfl, by simpa using hword⟩

section Script
variable {program : Program} {items : List Item} {script : List Lexeme} {itemTokens : List Token}
  (hitems : WrittenItems items itemTokens) {first : Statement} {rest : List Statement}
  {firstTokens restTokens : List Token} (hfirst : Written first firstTokens)
  (hscript : script.map Lexeme.token =
    headingTokens program.name ++ (itemTokens ++ (firstTokens ++ restTokens)))
include hitems hfirst hscript

theorem script_run : ∃ sections lines extra, sections.map Lexeme.token = itemTokens ∧
    lines.map Lexeme.token = firstTokens ++ restTokens ∧
    Parser.program script =
      programRest program.name (items.length + (extra + 1)) (sections ++ lines) := by
  obtain ⟨heading, row, rfl, hheading, hrow⟩ := List.map_eq_append_iff.1 hscript
  obtain ⟨sections, lines, rfl, hsections, hlines⟩ := List.map_eq_append_iff.1 hrow
  obtain ⟨hseparator, hnext⟩ := hitems.next hsections hfirst hlines
  obtain ⟨bound, hbound, hrun⟩ := program_run hheading hseparator hnext
  have hlength : items.length ≤ bound := by
    have hle := hitems.length_le
    rw [← hsections, List.length_map] at hle
    rw [List.length_append] at hbound
    omega
  obtain ⟨extra, rfl⟩ := Nat.exists_eq_add_of_le hlength
  exact ⟨sections, lines, extra, hsections, hlines, hrun⟩

variable (hwf : program.WellFormed) (hstatements : program.statements = first :: rest)
  (hprogram : Program.ofItems program.name (items ++ [.statements program.statements]) = program)
include hwf hstatements hprogram

/-- A script whose first statement cannot be one more line of the last section. -/
theorem program_script (hrest : WrittenBlock rest restTokens)
    (hlast : ¬FirstTaken items program.statements) :
    ∃ parsed, Parser.program script = .ok (parsed, []) ∧ parsed.unlined = program.unlined := by
  obtain ⟨sections, lines, extra, hsections, hlines, hrun⟩ := script_run hitems hfirst hscript
  obtain ⟨items', hitems', hread⟩ := sectionsWithin_before hitems
    (fun item hitem => hwf.items hprogram item (List.mem_append_left _ hitem)) hsections hfirst hlines
    extra fun last hmem ⟨hconstants, hassign⟩ =>
      hlast ⟨⟨last, hmem, hconstants⟩, first, by rw [hstatements, List.head?_cons], hassign⟩
  have hproper := hwf.statements
  rw [hstatements] at hproper
  obtain ⟨main, hmain, statements, rfl, hsame⟩ :=
    reads_scriptPart hfirst hrest hproper lines [] hlines rfl
  rw [List.append_nil] at hmain
  refine ⟨.ofItems program.name (items' ++ statements.map fun s => .statements [s]), ?_, ?_⟩
  · rw [hrun, programRest, bind_ok hread, bind_ok hmain]
    rfl
  · have hblock : Item.unlined (.statements statements) =
        Item.unlined (.statements program.statements) := by
      rw [Item.unlined, hsame, hstatements, Item.unlined]
    have hparts : (items' ++ [Item.statements statements]).map Item.unlined =
        (items ++ [Item.statements program.statements]).map Item.unlined := by
      rw [List.map_append, hitems', List.map_singleton, hblock, List.map_append, List.map_singleton]
    rw [Program.ofItems_split, Program.unlined_ofItems, hparts, ← Program.unlined_ofItems, hprogram]

/-- A script whose first statement could be one more line of the last section declares more than the
constants that are meant, if it is read at all. -/
theorem program_script_taken (htaken : FirstTaken items program.statements) {parsed : Program}
    {left : List Lexeme} (h : Parser.program script = .ok (parsed, left)) :
    program.constants.length < parsed.constants.length := by
  obtain ⟨⟨last, hlast, hconstants⟩, taken, hhead, hassign⟩ := htaken
  rw [hstatements, List.head?_cons, Option.some.injEq] at hhead
  subst hhead
  obtain ⟨sections, lines, extra, hsections, hlines, hrun⟩ := script_run hitems hfirst hscript
  rw [hrun, programRest] at h
  obtain ⟨found, row, hfound, hmore⟩ := exists_of_bind_ok h
  obtain ⟨main, left', -, hpure⟩ := exists_of_bind_ok hmore
  cases hpure
  have hless := sectionsWithin_overrun hitems
    (fun item hitem => hwf.items hprogram item (List.mem_append_left _ hitem)) hsections hfirst hlines
    extra hlast hconstants hassign hfound
  have hdeclared : program.constants = items.flatMap Item.declaredConstants := by
    rw [← hprogram, Program.constants_ofItems, List.flatMap_append]
    exact List.append_nil _
  rw [hdeclared, Program.constants_ofItems, List.flatMap_append, List.length_append]
  omega

end Script

/-- The two ways to write a program are read as the same program, except for a script whose last
section is one of constants and whose first statement is an assignment: that has the form of one more
line of the section. -/
theorem Program.parse_script {program : Program} {items : List Item} {full script : List Lexeme}
    (hwf : program.WellFormed) (hne : program.statements ≠ [])
    (h : program.WrittenTwice items (full.map Lexeme.token) (script.map Lexeme.token))
    (hfull : checkNesting full = .ok ()) (hnesting : checkNesting script = .ok ()) :
    ∃ parsed, parse full = .ok parsed ∧ parsed.unlined = program.unlined ∧
      ((∃ parsed', parse script = .ok parsed' ∧ parsed'.unlined = parsed.unlined) ↔
        ¬FirstTaken items program.statements) := by
  obtain ⟨parsed, hparsed, hsame⟩ := (parse_written hwf).2 full h.written hfull
  obtain ⟨itemTokens, lines, hitems, hbody, hprogram, -, hscript⟩ := h
  obtain ⟨first, rest, hstatements⟩ := List.exists_cons_of_ne_nil hne
  have hbody' := hbody
  rw [hstatements] at hbody'
  cases hbody' with
  | @cons _ _ firstTokens restTokens hfirst hrest =>
    obtain ⟨lexeme, hmem, hlexeme⟩ : ∃ lexeme ∈ script, lexeme.token.isSeparator = false := by
      obtain ⟨head, tail, hhead, hstart⟩ := hfirst.starts
      have hhead' : head ∈ script.map Lexeme.token := by
        rw [hscript, hhead]
        simp
      obtain ⟨lexeme, hmem, rfl⟩ := List.mem_map.1 hhead'
      exact ⟨lexeme, hmem, Token.not_separator_of_startsStatement hstart⟩
    refine ⟨parsed, hparsed, hsame, fun ⟨parsed', hparsed', hsame'⟩ htaken => ?_, fun hlast => ?_⟩
    · obtain ⟨left, hrun⟩ := (parse_eq_ok_iff hmem hlexeme hnesting).1 hparsed'
      have hmore := program_script_taken hitems hfirst hscript hwf hstatements hprogram htaken hrun
      have hlength := congrArg (fun p : Program => p.constants.length) (hsame'.trans hsame)
      simp only [unlined, List.length_map] at hlength
      omega
    · obtain ⟨parsed', hrun, hsame'⟩ :=
        program_script hitems hfirst hscript hwf hstatements hprogram hrest hlast
      exact ⟨parsed', (parse_eq_ok_iff hmem hlexeme hnesting).2 ⟨[], hrun⟩, hsame'.trans hsame.symm⟩

/-- The constant `N`, the variable `x` and the statement `x <- N`, which is read for what it is after
the section of variables. -/
theorem Program.parse_script_variables :
    let constant : ConstDecl := ⟨"N", none, .literal (.integer 3) 0, 0⟩
    let declared : VarDecl := ⟨["x"], .entier, 0⟩
    let program : Program := ⟨none, [constant], [declared], [], [.assign "x" (.var "N" 0) 0]⟩
    let items : List Item := [.constants [constant], .vars [declared]]
    let sections : List Token := [.keyword .constantes, .newline,
      .ident "N", .op .equal, .literal (.integer 3), .newline,
      .keyword .vars, .newline, .ident "x", .punct .colon, .type .entier, .newline]
    let lines : List Token := [.ident "x", .punct .assign, .ident "N", .newline]
    let placed (token : Token) : Lexeme := ⟨token, ⟨1, 1⟩⟩
    let full := (sections ++ Token.keyword .debut :: .newline ::
      (lines ++ [Token.keyword .fin])).map placed
    let script := (sections ++ lines).map placed
    program.WellFormed ∧
    program.WrittenTwice items (full.map Lexeme.token) (script.map Lexeme.token) ∧
    checkNesting full = .ok () ∧ checkNesting script = .ok () ∧
    ¬FirstTaken items program.statements ∧
    ∃ parsed, parse full = .ok parsed ∧ parsed.unlined = program.unlined ∧
      ∃ parsed', parse script = .ok parsed' ∧ parsed'.unlined = parsed.unlined := by
  intro constant declared program items sections lines placed full script
  have hwf : program.WellFormed := by
    have hconstant : ∀ c ∈ [constant], isBuiltin c.name = false := by decide
    have hdeclared : ∀ name ∈ declared.names, isBuiltin name = false := by decide
    refine ⟨hconstant, ?_, by simp [program], ?_⟩
    · simp only [program, List.mem_singleton, forall_eq]
      exact ⟨by simp [declared], hdeclared⟩
    · exact properBlock_cons trivial (by simp [Statement.blocks]) (properBlock_nil _)
  have hwritten : program.WrittenTwice items (full.map Lexeme.token) (script.map Lexeme.token) :=
    ⟨sections, lines, .cons (.constants _) (.cons (.vars _) .nil), .cons (.assign _ _ _) .nil, rfl,
      rfl, rfl⟩
  have hnot : ¬FirstTaken items program.statements := by
    rintro ⟨⟨last, hlast, ds, rfl⟩, -⟩
    cases hlast
  obtain ⟨parsed, hparsed, hsame, hiff⟩ := Program.parse_script hwf (List.cons_ne_nil _ _) hwritten rfl rfl
  exact ⟨hwf, hwritten, rfl, rfl, hnot, parsed, hparsed, hsame, hiff.2 hnot⟩

/-- The constant `N` and the statement `x <- N`: between `DEBUT` and `FIN` it is a statement, in a
script it declares the constant `x`. -/
theorem Program.parse_script_constants :
    let constant : ConstDecl := ⟨"N", none, .literal (.integer 3) 0, 0⟩
    let program : Program := ⟨none, [constant], [], [], [.assign "x" (.var "N" 0) 0]⟩
    let sections : List Token := [.keyword .constantes, .newline,
      .ident "N", .op .equal, .literal (.integer 3), .newline]
    let lines : List Token := [.ident "x", .punct .assign, .ident "N", .newline]
    let placed (token : Token) : Lexeme := ⟨token, ⟨1, 1⟩⟩
    let full := (sections ++ Token.keyword .debut :: .newline ::
      (lines ++ [Token.keyword .fin])).map placed
    let script := (sections ++ lines).map placed
    program.WellFormed ∧
    program.WrittenTwice [.constants [constant]] (full.map Lexeme.token) (script.map Lexeme.token) ∧
    checkNesting full = .ok () ∧ checkNesting script = .ok () ∧
    ∃ parsed parsed', parse full = .ok parsed ∧ parse script = .ok parsed' ∧
      parsed.unlined = program.unlined ∧
      parsed'.unlined = ⟨none, [constant, ⟨"x", none, .var "N" 0, 0⟩], [], [], []⟩ ∧
      parsed'.unlined ≠ parsed.unlined := by
  intro constant program sections lines placed full script
  have hwf : program.WellFormed := by
    have hconstant : ∀ c ∈ [constant], isBuiltin c.name = false := by decide
    refine ⟨hconstant, by simp [program], by simp [program], ?_⟩
    exact properBlock_cons trivial (by simp [Statement.blocks]) (properBlock_nil _)
  have hwritten : program.WrittenTwice [.constants [constant]] (full.map Lexeme.token)
      (script.map Lexeme.token) :=
    ⟨sections, lines, .cons (.constants _) .nil, .cons (.assign _ _ _) .nil, rfl, rfl, rfl⟩
  refine ⟨hwf, hwritten, rfl, rfl, _, _, rfl, rfl, rfl, rfl, fun hsame => ?_⟩
  have hlength := congrArg (fun p : Program => p.constants.length) hsame
  cases hlength

end Pseudocode
