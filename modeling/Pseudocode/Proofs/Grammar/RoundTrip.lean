import Pseudocode.Proofs.Grammar.DeclarationRoundTrip

/-! # Reading programs back

A well-formed program can be written down, and however that is done, parsing gives the same program
up to lines, unless it is nested too deep.

* `reads_sections`: the sections and routines of a program, in any order.
* `Program.parse_written`: the round trip. -/

namespace Pseudocode
set_option autoImplicit false
open Pseudocode.Parser

/-! ## Sections and routines -/

/-- A well-formed program is made of well-formed parts. -/
theorem Program.WellFormed.items {program : Program} {name : Option String} {items : List Item}
    (h : program.WellFormed) (hitems : Program.ofItems name items = program) :
    ∀ item ∈ items, item.WellFormed := by
  subst hitems
  intro item hitem
  cases item with
  | constants ds => exact fun d hd => h.constants d (List.mem_flatMap.2 ⟨_, hitem, hd⟩)
  | vars ds => exact fun d hd => h.declarations d (List.mem_flatMap.2 ⟨_, hitem, hd⟩)
  | routine r => exact h.routines r (List.mem_flatMap.2 ⟨_, hitem, List.mem_singleton.2 rfl⟩)
  | statements ss =>
    exact h.statements.of_subset fun s hs => List.mem_flatMap.2 ⟨_, hitem, hs⟩

/-- A part starts with a keyword of its own. -/
theorem WrittenItem.head {item : Item} {tokens : List Token} (h : WrittenItem item tokens) :
    ∃ word rest, tokens = .keyword word :: rest ∧ word ≠ .algorithme := by
  cases h with
  | constants | vars => exact ⟨_, _, rfl, by decide⟩
  | @routine r _ _ =>
    refine ⟨_, _, rfl, ?_⟩
    cases r.kind <;> exact Keyword.noConfusion

/-- Another part follows, or the main block. -/
theorem WrittenItems.head {items : List Item} {tokens : List Token} (h : WrittenItems items tokens) :
    ∃ word, tokens.head?.or (some (.keyword .debut)) = some (.keyword word) ∧ word ≠ .algorithme := by
  cases h with
  | nil => exact ⟨_, rfl, by decide⟩
  | cons hitem _ =>
    obtain ⟨word, rest, rfl, hword⟩ := hitem.head
    exact ⟨word, rfl, hword⟩

theorem reads_routineSection {routine : Routine} {bodyTokens : List Token}
    (hwf : routine.WellFormed) (hbody : WrittenBlock routine.body bodyTokens) :
    Reads section? (routine.tokens bodyTokens) anyNext
      (·.map Item.unlined = some (Item.routine routine).unlined) := by
  have hroutine : Reads (Option.map Item.routine <$> routine?) (routine.tokens bodyTokens) anyNext
      (·.map Item.unlined = some (Item.routine routine).unlined) := by
    refine (reads_routine hwf hbody).map fun found hfound => ?_
    obtain ⟨r', rfl, hr⟩ := Option.map_eq_some_iff.1 hfound
    simp only [Option.map_some, Item.unlined, hr]
  obtain ⟨kind, name, params, returnType?, locals, body, line⟩ := routine
  cases kind <;> exact reads_peek fun _ => hroutine

/-- A section takes the end of its last line, a routine leaves it. -/
theorem WrittenItem.reads_section {item : Item} {tokens : List Token} (h : WrittenItem item tokens)
    (hwf : item.WellFormed) :
    Reads section? (tokens ++ [.newline]) keywordNext (·.map Item.unlined = some item.unlined) ∨
      Reads section? tokens anyNext (·.map Item.unlined = some item.unlined) := by
  cases h with
  | constants ds =>
    have hsection := reads_declarationSection .constantes (fun _ => startsConstDecl_keyword)
      fun d hd => ConstDecl.readsLine (hwf d hd)
    refine .inl (reads_peek fun _ => hsection.map fun ds' hds => ?_)
    simp only [Function.comp_apply, Option.map_some, Item.unlined, hds]
  | vars ds =>
    have hsection := reads_declarationSection .vars (fun _ => startsVarDecl_keyword)
      fun d hd => VarDecl.readsLine (hwf d hd)
    refine .inl (reads_peek fun _ => hsection.map fun ds' hds => ?_)
    simp only [Function.comp_apply, Option.map_some, Item.unlined, hds]
  | routine hbody => exact .inr (reads_routineSection hwf hbody)

/-- What comes next must be able to do without the end of the last line. -/
theorem WrittenItem.bind_section {β : Type} {item : Item} {tokens rest : List Token}
    {f : Option Item → Parser β} {follow : Option Token → Prop} {good : β → Prop}
    (h : WrittenItem item tokens) (hwf : item.WellFormed)
    (hnext : ∀ next, follow next → keywordNext (rest.head?.or next))
    (hf : ∀ found, found.map Item.unlined = some item.unlined →
      Reads (f found) rest follow good ∧ Reads (f found) (.newline :: rest) follow good) :
    Reads (section? >>= f) (tokens ++ .newline :: rest) follow good := by
  rcases h.reads_section hwf with hread | hread
  · rw [List.append_cons]
    exact hread.bind hnext fun found hfound => (hf found hfound).1
  · exact hread.bind (fun _ _ => trivial) fun found hfound => (hf found hfound).2

theorem reads_noSection : Reads section? [] debutNext (· = none) := by
  refine reads_peek_nil fun found hfound => ?_
  obtain ⟨⟨_, span⟩, rfl, rfl⟩ := Option.map_eq_some_iff.1 hfound
  have hnone : Reads routine? [] debutNext (· = none) := by
    refine reads_peek_nil fun found hfound => ?_
    obtain ⟨⟨_, span⟩, rfl, rfl⟩ := Option.map_eq_some_iff.1 hfound
    exact reads_pure rfl
  refine hnone.map fun r hr => ?_
  rw [hr]
  rfl

theorem reads_sections {items : List Item} {tokens : List Token} (h : WrittenItems items tokens)
    (hwf : ∀ item ∈ items, item.WellFormed) (bound : Nat) (hbound : items.length < bound) :
    Reads (sectionsWithin bound) tokens debutNext (·.map Item.unlined = items.map Item.unlined) := by
  induction h generalizing bound with
  | nil =>
    obtain ⟨bound, rfl⟩ := Nat.exists_eq_add_one_of_ne_zero (Nat.ne_zero_of_lt hbound)
    refine reads_skip ?_ (reads_noSection.bind_nil (fun _ h => h) ?_)
    · rintro _ rfl
      rfl
    · rintro _ rfl
      exact reads_pure rfl
  | @cons item items tokens rest hitem hrest ih =>
    obtain ⟨bound, rfl⟩ := Nat.exists_eq_add_one_of_ne_zero (Nat.ne_zero_of_lt hbound)
    -- after this part there is at least the turn that finds no further one
    obtain ⟨bound, rfl⟩ := Nat.exists_eq_add_one_of_ne_zero
      (Nat.ne_zero_of_lt (Nat.lt_of_succ_lt_succ hbound))
    have hmore := ih (fun other hother => hwf other (List.mem_cons_of_mem item hother)) (bound + 1)
      (Nat.lt_of_succ_lt_succ hbound)
    obtain ⟨word, row, hrow, -⟩ := hitem.head
    refine reads_skip ?_ (hitem.bind_section (hwf item List.mem_cons_self) ?_ fun found hfound => ?_)
    · intro next _
      rw [hrow]
      rfl
    · rintro _ rfl
      obtain ⟨word, hword, -⟩ := hrest.head
      exact ⟨word, hword⟩
    · obtain ⟨item', rfl, hitem'⟩ := Option.map_eq_some_iff.1 hfound
      have hgood : ∀ items', items'.map Item.unlined = items.map Item.unlined →
          (item' :: items').map Item.unlined = (item :: items).map Item.unlined := by
        intro items' hitems'
        rw [List.map_cons, hitem', hitems', List.map_cons]
      exact ⟨hmore.bind_nil (fun _ h => h) fun items' h => reads_pure (hgood items' h),
        (reads_skip_newline hmore).bind_nil (fun _ h => h) fun items' h =>
          reads_pure (hgood items' h)⟩

theorem WrittenItems.length_le {items : List Item} {tokens : List Token}
    (h : WrittenItems items tokens) : items.length ≤ tokens.length := by
  induction h with
  | nil => exact Nat.le_refl _
  | cons hitem hrest ih =>
    rw [List.length_append, List.length_cons, List.length_cons]
    omega

/-! ## Programs -/

/-- Nothing follows. -/
abbrev endNext (next : Option Token) : Prop := next = none

theorem reads_noRoutines (bound : Nat) : Reads (routinesToEnd (bound + 1)) [] endNext (· = []) := by
  refine reads_skip ?_ ?_
  · rintro _ rfl
    rfl
  intro ls rest hls hrest
  obtain rfl := List.map_eq_nil_iff.1 hls
  obtain rfl := List.head?_eq_none_iff.1 (Option.map_eq_none_iff.1 hrest)
  exact ⟨[], rfl, rfl⟩

theorem reads_mainPart {statements : List Statement} {bodyTokens : List Token}
    (h : WrittenBlock statements bodyTokens) (hproper : ProperBlock none statements) :
    Reads mainPart (.keyword .debut :: (bodyTokens ++ [.keyword .fin])) endNext
      (·.map Item.unlined = [(Item.statements statements).unlined]) := by
  refine reads_accept ?_
  refine (h.reads_block hproper (by decide)).bind (fun _ _ => ⟨.keyword .fin, by simp, rfl⟩)
    fun statements' hstatements => reads_expect (reads_length fun left _ => ?_)
  refine (reads_noRoutines _).bind_nil (fun _ h => h) ?_
  rintro _ rfl
  exact reads_pure (by rw [List.map_singleton, Item.unlined, Item.unlined, hstatements])

/-- The heading leaves the end of its line; what comes next must be able to do without it. -/
theorem reads_heading {name : Option String} {rest : List Token} {β : Type}
    {f : Option String → Parser β} {follow : Option Token → Prop} {good : β → Prop}
    (hnext : ∀ next, follow next → rest.head?.or next ≠ some (.keyword .algorithme))
    (hf : Reads (f name) rest follow good) (hf' : Reads (f name) (.newline :: rest) follow good) :
    Reads (heading? >>= f) (headingTokens name ++ rest) follow good := by
  cases name with
  | none =>
    have hheading : Reads heading? [] (· ≠ some (.keyword .algorithme)) (· = none) :=
      reads_decline (fun _ h => h) (reads_pure rfl)
    refine hheading.bind hnext ?_
    rintro _ rfl
    exact hf
  | some name =>
    have hheading : Reads heading? [.keyword .algorithme, .ident name] anyNext (· = some name) := by
      refine reads_accept (reads_decline (fun _ _ => by simp) ?_)
      exact (reads_identifier name).map fun _ h => by rw [h]
    refine hheading.bind (fun _ _ => trivial) ?_
    rintro _ rfl
    exact hf'

section Program
variable {program : Program} {items : List Item} {itemTokens bodyTokens : List Token}

/-- The part of a program after its heading, where a line may still have to end. -/
theorem reads_programRest {sectionTokens : List Token} (hwf : program.WellFormed)
    (hbody : WrittenBlock program.statements bodyTokens)
    (hprogram : Program.ofItems program.name (items ++ [.statements program.statements]) = program)
    (hlength : items.length ≤ sectionTokens.length)
    (hsections : ∀ bound, items.length ≤ bound →
      Reads (sectionsWithin (bound + 1)) sectionTokens debutNext
        (·.map Item.unlined = items.map Item.unlined)) :
    Reads (do
        let sections ← sectionsWithin ((← get).length + 1)
        let main ← mainPart
        return Program.ofItems program.name (sections ++ main))
      (sectionTokens ++ .keyword .debut :: (bodyTokens ++ [.keyword .fin])) endNext
      (·.unlined = program.unlined) := by
  refine reads_length fun left hleft => ?_
  rw [List.length_append] at hleft
  refine (hsections _ (by omega)).bind (fun _ _ => rfl) fun sections hsections' => ?_
  refine (reads_mainPart hbody hwf.statements).bind_nil (fun _ h => h) fun main hmain => ?_
  refine reads_pure ?_
  have hparts : (sections ++ main).map Item.unlined =
      (items ++ [Item.statements program.statements]).map Item.unlined := by
    rw [List.map_append, hsections', hmain, List.map_append, List.map_singleton]
  rw [Program.unlined_ofItems, hparts, ← Program.unlined_ofItems, hprogram]

theorem Program.Written.reads {tokens : List Token} (h : program.Written tokens)
    (hwf : program.WellFormed) :
    Reads Parser.program tokens endNext (·.unlined = program.unlined) := by
  obtain ⟨items, itemTokens, bodyTokens, hitems, hbody, hprogram, rfl⟩ := h
  have hitemsWf : ∀ item ∈ items, item.WellFormed :=
    fun item hitem => hwf.items hprogram item (List.mem_append_left _ hitem)
  obtain ⟨word, hword, hne⟩ := hitems.head
  have hhead : ∀ next, (itemTokens ++ .keyword .debut ::
      (bodyTokens ++ [Token.keyword .fin])).head?.or next = some (.keyword word) := by
    intro next
    rw [List.head?_append, List.head?_cons, hword]
    rfl
  have hsections : ∀ bound, items.length ≤ bound →
      Reads (sectionsWithin (bound + 1)) itemTokens debutNext
        (·.map Item.unlined = items.map Item.unlined) :=
    fun bound hbound => reads_sections hitems hitemsWf (bound + 1) (Nat.lt_succ_of_le hbound)
  have hlength := hitems.length_le
  refine reads_skip (fun next _ => ?_) (reads_heading (fun next _ => ?_) ?_ ?_)
  · cases hname : program.name with
    | none =>
      rw [headingTokens, List.nil_append, hhead next]
      rfl
    | some name => rfl
  · rw [hhead next]
    simpa using hne
  · exact reads_programRest hwf hbody hprogram hlength hsections
  · exact @reads_programRest program items bodyTokens (.newline :: itemTokens) hwf hbody hprogram
      (Nat.le_succ_of_le hlength) fun bound hbound => reads_skip_newline (hsections bound hbound)

end Program

/-- Where something else than separators stands, there is a last such token. -/
theorem exists_lastMeaningful {lexemes : List Lexeme} {lexeme : Lexeme} (h : lexeme ∈ lexemes)
    (hlexeme : lexeme.token.isSeparator = false) :
    ∃ last, lastMeaningful? lexemes = some last := by
  refine Option.isSome_iff_exists.1 (List.find?_isSome.2 ⟨lexeme, List.mem_reverse.2 h, ?_⟩)
  rw [hlexeme]
  rfl

/-- A well-formed program can be written down, and whatever tokens it is written as, wherever they
stand in a source, the program that they are parsed as is the same up to lines if they are not
nested too deep. -/
theorem Program.parse_written {program : Program} (h : program.WellFormed) :
    (∃ tokens, program.Written tokens) ∧
      ∀ lexemes : List Lexeme, program.Written (lexemes.map Lexeme.token) →
        checkNesting lexemes = .ok () →
        ∃ parsed, parse lexemes = .ok parsed ∧ parsed.unlined = program.unlined := by
  refine ⟨program.exists_written, fun lexemes hwritten hnesting => ?_⟩
  obtain ⟨parsed, hparsed, heq⟩ := hwritten.reads h lexemes [] rfl rfl
  rw [List.append_nil] at hparsed
  obtain ⟨last, hlast⟩ : ∃ last, lastMeaningful? lexemes = some last := by
    obtain ⟨items, itemTokens, bodyTokens, -, -, -, htokens⟩ := hwritten
    have hfin : Token.keyword .fin ∈ lexemes.map Lexeme.token := by
      rw [htokens]
      simp
    obtain ⟨lexeme, hmem, hlexeme⟩ := List.mem_map.1 hfin
    exact exists_lastMeaningful hmem (by rw [hlexeme]; rfl)
  refine ⟨parsed, ?_, heq⟩
  rw [parse, hlast]
  simp only [hnesting, hparsed]
  rfl

/-- A loop that calls a function, with a step and without its `FAIRE`. -/
theorem Program.parse_written_loop :
    let double : Routine := ⟨.function, "double", [⟨"n", .entier⟩], some .entier, [],
      [.ret (some (.binary (.var "n" 0) .mul (.literal (.integer 2) 0) 0)) 0], 0⟩
    let call : Expr := .call "double" [.binary (.var "i" 0) .sub (.literal (.integer 1) 0) 0] 0
    let program : Program := ⟨some "demo", [], [⟨["i", "j"], .entier, 0⟩], [double],
      [.forLoop "i" (.literal (.integer 1) 0) (.literal (.integer 9) 0)
        (some (.literal (.integer 2) 0)) [.write [call] 0] 0]⟩
    let tokens : List Token :=
      [.keyword .algorithme, .ident "demo", .newline,
        .keyword .fonction, .ident "double", .punct .lparen, .ident "n", .punct .colon,
        .type .entier, .punct .rparen, .punct .colon, .type .entier, .newline,
        .keyword .debut, .newline,
        .keyword .retourner, .ident "n", .op .mul, .literal (.integer 2), .newline,
        .keyword .fin, .newline,
        .keyword .vars, .newline, .ident "i", .punct .comma, .ident "j", .punct .colon,
        .type .entier, .newline,
        .keyword .debut, .newline,
        .keyword .pour, .ident "i", .punct .assign, .literal (.integer 1), .keyword .jusqua,
        .literal (.integer 9), .keyword .pas, .literal (.integer 2), .newline,
        .keyword .ecrire, .punct .lparen, .ident "double", .punct .lparen, .ident "i", .op .sub,
        .literal (.integer 1), .punct .rparen, .punct .rparen, .newline,
        .keyword .finPour, .newline,
        .keyword .fin]
    program.WellFormed ∧ program.Written tokens ∧
      ∃ parsed, parse (tokens.map fun token => ⟨token, ⟨1, 1⟩⟩) = .ok parsed ∧
        parsed.unlined = program.unlined := by
  intro double call program tokens
  have hwf : program.WellFormed := by
    refine ⟨by simp [program], ?_, ?_, ?_⟩
    · simp only [program, List.mem_singleton, forall_eq]
      have hnames : ∀ name ∈ ["i", "j"], isBuiltin name = false := by decide
      exact ⟨by simp, hnames⟩
    · simp only [program, List.mem_singleton, forall_eq]
      have hname : isBuiltin "double" = false := by decide
      have hparams : ∀ param ∈ [(⟨"n", .entier⟩ : Param)], isBuiltin param.name = false := by decide
      exact ⟨hname, hparams, by simp [double], by simp [double],
        properBlock_cons trivial (by simp [Statement.blocks]) (properBlock_nil _)⟩
    · refine properBlock_cons trivial ?_ (properBlock_nil _)
      simp only [Statement.blocks, List.mem_singleton, forall_eq]
      exact properBlock_cons trivial (by simp [Statement.blocks]) (properBlock_nil _)
  have hwritten : program.Written tokens := by
    have hdouble : WrittenBlock double.body _ := .cons (.ret _ _) .nil
    have hloop : WrittenBlock program.statements _ := .cons (.forLoop "i" _ _ _ _
      (show Token.punct .assign ∈ [Token.keyword .de, .punct .assign] by simp)
      (show Token.keyword .jusqua ∈ [Token.keyword .a, .keyword .jusqua] by simp)
      (show [] ∈ [[], [Token.keyword .faire]] by simp) (.cons (.write _ _) .nil)) .nil
    exact ⟨[.routine double, .vars [⟨["i", "j"], .entier, 0⟩]], _, _,
      .cons (.routine hdouble) (.cons (.vars _) .nil), hloop, rfl, rfl⟩
  exact ⟨hwf, hwritten, (Program.parse_written hwf).2 _ hwritten rfl⟩

end Pseudocode
