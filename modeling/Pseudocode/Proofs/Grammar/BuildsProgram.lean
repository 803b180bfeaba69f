import Pseudocode.Grammar.Layout
import Pseudocode.Proofs.Grammar.Builds

/-! # What the parser of programs builds

Declarations and layouts, followed like expressions and statements before: every declared name goes
through one parser, which refuses the names of built-in functions, and every node takes the line of
a token. An error at the end of the input is given the line of the last token that separates
nothing.

* `builds_routine`, `builds_program`: the parsers.
* `parse_built`: a program that is parsed is well formed, and the line of every node and of every
  error is that of a token. -/

namespace Pseudocode
set_option autoImplicit false

namespace Parser
variable {P : Nat → Prop}

/-! ## Variables and constants -/

theorem builds_type : Builds P (fun _ => True) type := by
  refine builds_next.bind fun found hfound => ?_
  split
  · exact builds_pure trivial
  · exact builds_unexpected hfound

theorem builds_declaredName : Builds P (fun name => isBuiltin name = false) declaredName := by
  refine builds_nextLine (fun line hline => ?_) ⟨_, rfl⟩
  refine builds_identifier.bind fun name _ => ?_
  cases hbuiltin : isBuiltin name with
  | true => exact builds_throw hline
  | false => exact builds_pure hbuiltin

theorem builds_varDecl : Builds P (fun d => P d.line ∧ d.WellFormed) varDecl := by
  refine builds_nextLine (fun line hline => ?_) ⟨_, rfl⟩
  have hnames := builds_openList (builds_declaredName (P := P))
  refine builds_peek fun found _ => ?_
  split
  · refine builds_next.bind fun _ _ => (builds_accept _).bind fun _ _ => ?_
    exact hnames.bind fun names h => builds_pure ⟨hline, h.1, h.2⟩
  · refine hnames.bind fun names h => (builds_expect _).bind fun _ _ => ?_
    exact builds_type.bind fun ty _ => builds_pure ⟨hline, h.1, h.2⟩

theorem builds_constDecl :
    Builds P (fun c => c.OnLines P ∧ isBuiltin c.name = false) constDecl := by
  refine builds_nextLine (fun line hline => ?_) ⟨_, rfl⟩
  refine builds_declaredName.bind fun name hname => (builds_accept _).bind fun taken _ => ?_
  have hvalue (ty? : Option Ty) :
      Builds P (fun c : ConstDecl => c.OnLines P ∧ isBuiltin c.name = false) (do
        expectEither (.op .equal) (.punct .assign)
        return (⟨name, ty?, ← expression, line⟩ : ConstDecl)) := by
    refine (builds_expectEither _ _).bind fun _ _ => ?_
    exact builds_expression.bind fun value hvalue => builds_pure ⟨⟨hvalue, hline⟩, hname⟩
  cases taken with
  | true =>
    simp only [if_true, map_eq_pure_bind, bind_assoc, pure_bind]
    exact builds_type.bind fun ty _ => hvalue (some ty)
  | false =>
    simp only [Bool.false_eq_true, if_false, pure_bind]
    exact hvalue none

section Sections
variable {α : Type} {declaration : Parser α} {good : α → Prop}
  (hdeclaration : Builds P good declaration)
include hdeclaration

theorem builds_declarations (starts : List Lexeme → Bool) (bound : Nat) :
    Builds P (fun as => ∀ a ∈ as, good a) (declarations starts declaration bound) := by
  induction bound with
  | zero => exact builds_pure nofun
  | succ bound ih =>
    refine builds_skipSeparators.bind fun _ _ => builds_get fun lexemes _ => ?_
    refine builds_ite ?_ (builds_pure nofun)
    refine hdeclaration.bind fun first hfirst => ih.bind fun rest hrest => builds_pure ?_
    exact List.forall_mem_cons.2 ⟨hfirst, hrest⟩

theorem builds_declarationSection (word : Keyword) (starts : List Lexeme → Bool) :
    Builds P (fun as => ∀ a ∈ as, good a) (declarationSection word starts declaration) := by
  refine (builds_expect _).bind fun _ _ => (builds_accept _).bind fun _ _ => ?_
  exact builds_get fun _ _ => builds_declarations hdeclaration starts _

end Sections

/-! ## Routines -/

theorem builds_param : Builds P (fun param => isBuiltin param.name = false) param := by
  refine builds_declaredName.bind fun name hname => (builds_expect _).bind fun _ _ => ?_
  exact builds_type.bind fun ty _ => builds_pure hname

theorem builds_localsWithin (bound : Nat) :
    Builds P (fun ds => ∀ d ∈ ds, P d.line ∧ d.WellFormed) (localsWithin bound) := by
  induction bound with
  | zero => exact builds_pure nofun
  | succ bound ih =>
    refine builds_skipSeparators.bind fun _ _ => builds_get fun lexemes _ => ?_
    refine builds_ite ?_ (builds_ite ?_ (builds_pure nofun))
    · have hsection := builds_declarationSection (builds_varDecl (P := P)) .vars startsVarDecl
      refine hsection.bind fun first hfirst => ?_
      exact ih.bind fun rest hrest => builds_pure (List.forall_mem_append.2 ⟨hfirst, hrest⟩)
    · refine builds_varDecl.bind fun first hfirst => ih.bind fun rest hrest => builds_pure ?_
      exact List.forall_mem_cons.2 ⟨hfirst, hrest⟩

theorem builds_returnType (kind : RoutineKind) :
    Builds P (fun ty? => ty?.isSome = true ↔ kind = .function) (returnType kind) := by
  cases kind with
  | procedure => exact builds_pure (by simp)
  | function =>
    exact (builds_expect _).bind fun _ _ => builds_type.bind fun ty _ => builds_pure (by simp)

theorem builds_routineRest (kind : RoutineKind) {line : Nat} (hline : P line) :
    Builds P (fun routine => routine.OnLines P ∧ routine.WellFormed)
      (routineRest kind line) := by
  refine builds_declaredName.bind fun name hname => (builds_expect _).bind fun _ _ => ?_
  refine (builds_closedList builds_param).bind fun params hparams => ?_
  refine (builds_returnType kind).bind fun returnType? hreturn => builds_get fun lexemes _ => ?_
  refine (builds_localsWithin _).bind fun locals hlocals => (builds_accept _).bind fun _ _ => ?_
  refine (builds_block (some kind) _).bind fun body hbody => (builds_expect _).bind fun _ _ => ?_
  have hlines : Routine.OnLines P ⟨kind, name, params, returnType?, locals, body, line⟩ :=
    ⟨fun d hd => (hlocals d hd).1, fun s hs => (hbody s hs).lines, hline⟩
  have hwellFormed : Routine.WellFormed ⟨kind, name, params, returnType?, locals, body, line⟩ :=
    ⟨hname, hparams, hreturn, fun d hd => (hlocals d hd).2, properBlock_of_fits hbody⟩
  exact builds_pure ⟨hlines, hwellFormed⟩

theorem builds_routine :
    Builds P (fun found => ∀ routine ∈ found, routine.OnLines P ∧ routine.WellFormed) routine? := by
  have hrest (kind : RoutineKind) {line : Nat} (hline : P line) :
      Builds P (fun found => ∀ routine ∈ found, routine.OnLines P ∧ routine.WellFormed)
        (some <$> routineRest kind line) := by
    refine (builds_routineRest kind hline).map fun routine hroutine => ?_
    rintro _ ⟨⟩
    exact hroutine
  refine builds_peek fun found hfound => ?_
  split
  · exact builds_next.bind fun _ _ => hrest .function (hfound _ rfl)
  · exact builds_next.bind fun _ _ => hrest .procedure (hfound _ rfl)
  · exact builds_pure nofun

end Parser

/-! ## Layouts -/

/-- The part is well formed, and its nodes are on lines with the property. -/
def Item.Fits (P : Nat → Prop) : Item → Prop
  | .constants ds => ∀ d ∈ ds, d.OnLines P ∧ isBuiltin d.name = false
  | .vars ds => ∀ d ∈ ds, P d.line ∧ d.WellFormed
  | .routine r => r.OnLines P ∧ r.WellFormed
  | .statements ss => ∀ s ∈ ss, s.Fits P none

theorem Program.fits_ofItems {P : Nat → Prop} {items : List Item}
    (h : ∀ item ∈ items, item.Fits P) (name : Option String) :
    (ofItems name items).OnLines P ∧ (ofItems name items).WellFormed := by
  have hconstants : ∀ d ∈ (ofItems name items).constants,
      d.OnLines P ∧ isBuiltin d.name = false := by
    refine List.forall_mem_flatMap.2 fun item hitem => ?_
    cases item with
    | constants ds => exact h (.constants ds) hitem
    | vars | routine | statements => exact nofun
  have hdeclarations : ∀ d ∈ (ofItems name items).declarations, P d.line ∧ d.WellFormed := by
    refine List.forall_mem_flatMap.2 fun item hitem => ?_
    cases item with
    | vars ds => exact h (.vars ds) hitem
    | constants | routine | statements => exact nofun
  have hroutines : ∀ r ∈ (ofItems name items).routines, r.OnLines P ∧ r.WellFormed := by
    refine List.forall_mem_flatMap.2 fun item hitem => ?_
    cases item with
    | routine found => exact List.forall_mem_singleton.2 (h (.routine found) hitem)
    | constants | vars | statements => exact nofun
  have hstatements : ∀ s ∈ (ofItems name items).statements, s.Fits P none := by
    refine List.forall_mem_flatMap.2 fun item hitem => ?_
    cases item with
    | statements ss => exact h (.statements ss) hitem
    | constants | vars | routine => exact nofun
  constructor
  · exact ⟨fun d hd => (hconstants d hd).1, fun d hd => (hdeclarations d hd).1,
      fun r hr => (hroutines r hr).1, fun s hs => (hstatements s hs).lines⟩
  · exact ⟨fun d hd => (hconstants d hd).2, fun d hd => (hdeclarations d hd).2,
      fun r hr => (hroutines r hr).2, properBlock_of_fits hstatements⟩

namespace Parser
variable {P : Nat → Prop}

abbrev BuildsItems (P : Nat → Prop) (p : Parser (List Item)) : Prop :=
  Builds P (fun items => ∀ item ∈ items, item.Fits P) p

theorem builds_section : Builds P (fun found => ∀ item ∈ found, item.Fits P) section? := by
  refine builds_peek fun found _ => ?_
  split
  · refine (builds_declarationSection builds_constDecl _ _).map fun ds hds => ?_
    rintro _ ⟨⟩
    exact hds
  · refine (builds_declarationSection builds_varDecl _ _).map fun ds hds => ?_
    rintro _ ⟨⟩
    exact hds
  · refine builds_routine.map fun found hfound item hitem => ?_
    obtain ⟨routine, hroutine, rfl⟩ := Option.map_eq_some_iff.1 hitem
    exact hfound routine hroutine

theorem builds_sectionsWithin (bound : Nat) : BuildsItems P (sectionsWithin bound) := by
  induction bound with
  | zero => exact builds_pure nofun
  | succ bound ih =>
    refine builds_skipSeparators.bind fun _ _ => builds_section.bind fun found hfound => ?_
    cases found with
    | none => exact builds_pure nofun
    | some item =>
      refine ih.bind fun items hitems => builds_pure ?_
      exact List.forall_mem_cons.2 ⟨hfound item rfl, hitems⟩

theorem builds_routinesToEnd (bound : Nat) : BuildsItems P (routinesToEnd bound) := by
  induction bound with
  | zero => exact builds_pure nofun
  | succ bound ih =>
    refine builds_skipSeparators.bind fun _ _ => builds_routine.bind fun found hfound => ?_
    cases found with
    | none =>
      refine builds_peek fun next hnext => ?_
      cases next with
      | none => exact builds_pure nofun
      -- only routines may follow the main block
      | some lexeme => exact builds_throw (hnext lexeme rfl)
    | some routine =>
      refine ih.bind fun items hitems => builds_pure ?_
      exact List.forall_mem_cons.2 ⟨hfound routine rfl, hitems⟩

theorem builds_scriptWithin (started : Bool) (bound : Nat) :
    BuildsItems P (scriptWithin started bound) := by
  induction bound generalizing started with
  | zero => exact builds_pure nofun
  | succ bound ih =>
    refine builds_skipSeparators.bind fun _ _ => builds_get fun lexemes hlexemes => ?_
    cases lexemes with
    | nil => exact builds_pure nofun
    | cons next rest =>
      refine builds_ite (builds_throw (hlexemes next List.mem_cons_self)) ?_
      refine builds_section.bind fun found hfound => ?_
      cases found with
      | some item =>
        refine (ih started).bind fun items hitems => builds_pure ?_
        exact List.forall_mem_cons.2 ⟨hfound item rfl, hitems⟩
      | none =>
        refine builds_ite ?_ ?_
        · refine builds_varDecl.bind fun d hd => (ih started).bind fun items hitems => ?_
          have hitem : (Item.vars [d]).Fits P := List.forall_mem_singleton.2 hd
          exact builds_pure (List.forall_mem_cons.2 ⟨hitem, hitems⟩)
        · refine (builds_statement none).bind fun first hfirst => ?_
          refine (ih true).bind fun items hitems => ?_
          have hitem : (Item.statements [first]).Fits P := List.forall_mem_singleton.2 hfirst
          exact builds_pure (List.forall_mem_cons.2 ⟨hitem, hitems⟩)

theorem builds_heading : Builds P (fun _ => True) heading? := by
  refine (builds_accept _).bind fun taken _ => builds_ite ?_ (builds_pure trivial)
  exact (builds_accept _).bind fun _ _ => builds_identifier.map fun _ _ => trivial

theorem builds_mainPart : BuildsItems P mainPart := by
  refine (builds_accept _).bind fun taken _ => builds_ite ?_ ?_
  · refine (builds_block none _).bind fun statements hstatements => ?_
    refine (builds_expect _).bind fun _ _ => builds_get fun lexemes _ => ?_
    refine (builds_routinesToEnd _).bind fun items hitems => builds_pure ?_
    exact List.forall_mem_cons.2 ⟨hstatements, hitems⟩
  · exact builds_get fun _ _ => builds_scriptWithin false _

theorem builds_program :
    Builds P (fun program => program.OnLines P ∧ program.WellFormed) program := by
  refine builds_skipSeparators.bind fun _ _ => builds_heading.bind fun name _ => ?_
  refine builds_get fun lexemes _ => (builds_sectionsWithin _).bind fun sections hsections => ?_
  refine builds_mainPart.bind fun main hmain => builds_pure ?_
  exact Program.fits_ofItems (List.forall_mem_append.2 ⟨hsections, hmain⟩) name

end Parser

/-! ## Rows of tokens -/

theorem Depth.check_error {P : Nat → Prop} {lexemes : List Lexeme} (hlexemes : LexemesOn P lexemes)
    {depth : Depth} {error : SyntaxError} (h : depth.check lexemes = .error error) :
    P error.line := by
  induction lexemes generalizing depth with
  | nil => cases h
  | cons lexeme rest ih =>
    obtain ⟨hlexeme, hrest⟩ := List.forall_mem_cons.1 hlexemes
    rw [Depth.check] at h
    split at h
    · cases h
      exact hlexeme
    · split at h
      · cases h
        exact hlexeme
      · exact ih hrest h

theorem SyntaxError.On.endingOn {P : Nat → Prop} {error : SyntaxError} (h : error.On P) {line : Nat}
    (hline : P line) : P (error.endingOn line).line := by
  unfold SyntaxError.endingOn
  split
  · exact hline
  · rename_i hother
    rcases h with h | ⟨expected, rfl⟩
    · exact h
    · exact absurd rfl (hother expected)

/-- A row of tokens that is not empty gives a well-formed program or an error, and the lines of all
nodes, or that of the error, are lines of tokens. -/
theorem parse_built {P : Nat → Prop} {lexemes : List Lexeme} (hlexemes : LexemesOn P lexemes) :
    match parse lexemes with
    | .ok program => program.OnLines P ∧ program.WellFormed
    | .error error => error.cause = .emptyProgram ∨ P error.line := by
  unfold parse
  cases hlast : lastMeaningful? lexemes with
  | none => exact .inl rfl
  | some last =>
    have hmem : last ∈ lexemes := List.mem_reverse.1 (List.mem_of_find?_eq_some hlast)
    cases hcheck : checkNesting lexemes with
    | error error => exact .inr (Depth.check_error hlexemes hcheck)
    | ok _ =>
      have hbuilt := Parser.builds_program lexemes hlexemes
      cases hparsed : Parser.program lexemes with
      | ok result =>
        rw [hparsed] at hbuilt
        exact hbuilt.1
      | error error =>
        rw [hparsed] at hbuilt
        -- at the end of the input the error takes the line of the last token
        exact .inr (hbuilt.endingOn (hlexemes last hmem))

end Pseudocode
