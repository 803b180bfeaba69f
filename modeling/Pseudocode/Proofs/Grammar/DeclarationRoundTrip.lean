import Pseudocode.Proofs.Grammar.StatementRoundTrip

/-! # Reading declarations back

A section is read line by line for as long as a declaration seems to start. What is written for one
is always seen as the start of one, and the keyword after a section is not. -/

namespace Pseudocode
set_option autoImplicit false
open Pseudocode.Parser

/-- A keyword follows. -/
def keywordNext (next : Option Token) : Prop := ∃ word, next = some (.keyword word)

/-! ## Sections -/

theorem head_lines (rows : List (List Token)) (next : Option Token) :
    (rows.flatMap (.newline :: ·) ++ [Token.newline]).head?.or next = some .newline := by
  cases rows <;> rfl

theorem length_le_lines (rows : List (List Token)) :
    rows.length ≤ (rows.flatMap (Token.newline :: ·)).length := by
  induction rows with
  | nil => exact Nat.le_refl _
  | cons row rows ih =>
    rw [List.flatMap_cons, List.length_append, List.length_cons, List.length_cons]
    omega

section Sections
variable {α β : Type} {starts : List Lexeme → Bool} {declaration : Parser α}
  {write : α → List Token} {erase : α → β}

/-- What a parser of declarations needs to read a section back. -/
structure ReadsLine (starts : List Lexeme → Bool) (declaration : Parser α) (write : α → List Token)
    (erase : α → β) (x : α) : Prop where
  starts : ∀ ls more, ls.map Lexeme.token = write x ++ more → starts ls = true
  first : ∃ name rest, write x = .ident name :: rest
  reads : Reads declaration (write x) endsLine (erase · = erase x)

theorem reads_declarations (hstop : ∀ ls, keywordNext (nextToken? ls) → starts ls = false)
    {xs : List α} (bound : Nat) (hbound : xs.length < bound)
    (hlines : ∀ x ∈ xs, ReadsLine starts declaration write erase x) :
    Reads (declarations starts declaration bound)
      ((xs.map write).flatMap (.newline :: ·) ++ [.newline]) keywordNext
      (·.map erase = xs.map erase) := by
  induction xs generalizing bound with
  | nil =>
    obtain ⟨bound, rfl⟩ := Nat.exists_eq_add_one_of_ne_zero (Nat.ne_zero_of_lt hbound)
    refine reads_skip_newline (reads_skip ?_ (reads_get fun ls rest hls hrest => ?_))
    · rintro _ ⟨word, rfl⟩
      rfl
    obtain rfl := List.map_eq_nil_iff.1 hls
    rw [List.nil_append, hstop _ hrest, if_neg Bool.false_ne_true]
    exact reads_pure rfl
  | cons x xs ih =>
    obtain ⟨bound, rfl⟩ := Nat.exists_eq_add_one_of_ne_zero (Nat.ne_zero_of_lt hbound)
    have hx := hlines x List.mem_cons_self
    obtain ⟨name, row, hrow⟩ := hx.first
    have hreads := hx.reads
    rw [List.map_cons, List.flatMap_cons, List.append_assoc, List.cons_append]
    refine reads_skip_newline (reads_skip ?_ (reads_get fun ls rest hls hrest => ?_))
    · intro next _
      rw [hrow]
      rfl
    rw [hx.starts (ls ++ rest) _ (by rw [List.map_append, hls, List.append_assoc]), if_pos rfl]
    refine hreads.bind (fun next _ => head_lines _ next) fun x' hx' => ?_
    have hrest' := ih bound (Nat.lt_of_succ_lt_succ hbound) fun y hy =>
      hlines y (List.mem_cons_of_mem x hy)
    refine hrest'.bind_nil (fun _ h => h) fun xs' hxs' => reads_pure ?_
    rw [List.map_cons, hx', hxs', List.map_cons]

theorem reads_declarationSection (word : Keyword)
    (hstop : ∀ ls, keywordNext (nextToken? ls) → starts ls = false) {xs : List α}
    (hlines : ∀ x ∈ xs, ReadsLine starts declaration write erase x) :
    Reads (declarationSection word starts declaration) (sectionTokens word (xs.map write) ++ [.newline])
      keywordNext (·.map erase = xs.map erase) := by
  rw [sectionTokens, List.cons_append]
  refine reads_expect (reads_decline (fun next _ => ?_) (reads_length fun left hleft => ?_))
  · rw [head_lines]
    simp
  refine reads_declarations hstop _ ?_ hlines
  have hlength := length_le_lines (xs.map write)
  rw [List.length_map] at hlength
  rw [List.length_append] at hleft
  omega

end Sections

/-! ## Variables and constants -/

theorem startsVarDecl_keyword {ls : List Lexeme} (h : keywordNext (nextToken? ls)) :
    startsVarDecl ls = false := by
  obtain ⟨word, h⟩ := h
  obtain ⟨span, rest, rfl⟩ := eq_cons_of_nextToken? h
  rfl

theorem startsConstDecl_keyword {ls : List Lexeme} (h : keywordNext (nextToken? ls)) :
    startsConstDecl ls = false := by
  obtain ⟨word, h⟩ := h
  obtain ⟨span, rest, rfl⟩ := eq_cons_of_nextToken? h
  rfl

/-- A line of variables starts with a name and a mark which no statement has there. -/
theorem VarDecl.tokens_eq {declaration : VarDecl} (h : declaration.names ≠ []) :
    ∃ name mark more, declaration.tokens = .ident name :: .punct mark :: more ∧
      mark ∈ [Punct.comma, .colon] := by
  obtain ⟨names, ty, line⟩ := declaration
  match names, h with
  | [name], _ => exact ⟨name, .colon, [.type ty], rfl, by simp⟩
  | name :: second :: names, _ =>
    refine ⟨name, .comma, commas ((second :: names).map fun name => [.ident name]) ++
      [.punct .colon, .type ty], ?_, by simp⟩
    rw [VarDecl.tokens, List.map_cons, List.map_cons, commas_cons_cons]
    rfl

theorem VarDecl.readsLine {declaration : VarDecl} (h : declaration.WellFormed) :
    ReadsLine startsVarDecl varDecl VarDecl.tokens VarDecl.unlined declaration := by
  obtain ⟨name, mark, more, htokens, hmark⟩ := VarDecl.tokens_eq h.names
  refine ⟨fun ls after hls => ?_, ⟨name, _, htokens⟩, ?_⟩
  · rw [htokens] at hls
    obtain ⟨⟨_, _⟩, ls, rfl, rfl, hrest⟩ := List.map_eq_cons_iff.1 hls
    obtain ⟨⟨_, _⟩, ls, rfl, rfl, _⟩ := List.map_eq_cons_iff.1 hrest
    simp only [List.mem_cons, List.not_mem_nil, or_false] at hmark
    obtain rfl | rfl := hmark <;> rfl
  · have hnames : Reads (openList declaredName)
        (commas (declaration.names.map fun name => [.ident name]))
        (· = some (.punct .colon)) (·.map id = declaration.names.map id) :=
      reads_openList h.names trivial (fun name hname => reads_declaredName (h.free name hname))
        fun next hnext => ⟨trivial, by rw [hnext]; simp⟩
    have hline : ∀ line, Reads (do
        let names ← openList declaredName
        expect (.punct .colon)
        return VarDecl.mk names (← type) line) declaration.tokens endsLine
        (·.unlined = declaration.unlined) := by
      intro line
      refine hnames.bind (fun _ _ => rfl) fun names hnames' => reads_expect ?_
      rw [List.map_id, List.map_id] at hnames'
      refine (reads_type declaration.ty).bind_nil (fun _ _ => trivial) fun ty hty => reads_pure ?_
      rw [hnames', hty]
      rfl
    rw [htokens] at hline ⊢
    exact reads_nextLine fun line => reads_peek fun _ => hline line

theorem ConstDecl.readsLine {constant : ConstDecl} (h : isBuiltin constant.name = false) :
    ReadsLine startsConstDecl constDecl ConstDecl.tokens ConstDecl.unlined constant := by
  obtain ⟨name, ty?, value, line⟩ := constant
  have hvalue : ∀ line, Reads (do
      expectEither (.op .equal) (.punct .assign)
      return ConstDecl.mk name ty? (← expression) line) (.op .equal :: value.tokens) endsLine
      (·.unlined = ConstDecl.mk name ty? value.unlined 0) := by
    intro line
    refine reads_expectEither (by simp) ?_
    refine (reads_expression value).bind_nil (fun _ => ends_of_endsLine) fun value' hvalue => ?_
    exact reads_pure (by rw [ConstDecl.unlined, hvalue])
  refine ⟨fun ls more hls => ?_, ⟨name, _, rfl⟩, ?_⟩
  · obtain ⟨⟨_, _⟩, ls, rfl, rfl, htype⟩ := List.map_eq_cons_iff.1 hls
    cases ty? with
    | none =>
      obtain ⟨⟨_, _⟩, ls, rfl, rfl, -⟩ := List.map_eq_cons_iff.1 htype
      rfl
    | some ty =>
      obtain ⟨⟨_, _⟩, ls, rfl, rfl, hty⟩ := List.map_eq_cons_iff.1 htype
      obtain ⟨⟨_, _⟩, ls, rfl, rfl, hmark⟩ := List.map_eq_cons_iff.1 hty
      obtain ⟨⟨_, _⟩, ls, rfl, rfl, -⟩ := List.map_eq_cons_iff.1 hmark
      rfl
  · refine reads_nextLine fun line => ?_
    refine (reads_declaredName h).bind (fun _ _ => trivial) ?_
    rintro _ rfl
    cases ty? with
    | none =>
      refine reads_decline (fun _ _ => by simp [typeTokens]) ?_
      rw [if_neg Bool.false_ne_true, pure_bind]
      exact hvalue line
    | some ty =>
      have hty : Reads (some <$> type) [.type ty] anyNext (· = some ty) :=
        (reads_type ty).map fun ty' hty' => by rw [hty']
      refine reads_accept (hty.bind (fun _ _ => trivial) ?_)
      rintro _ rfl
      exact hvalue line

/-! ## Routines -/

theorem reads_param {param : Param} (h : isBuiltin param.name = false) :
    Reads Parser.param param.tokens anyNext (id · = id param) := by
  refine (reads_declaredName h).bind (fun _ _ => trivial) ?_
  rintro _ rfl
  refine reads_expect ((reads_type param.ty).bind_nil (fun _ h => h) ?_)
  rintro _ rfl
  exact reads_pure rfl

theorem reads_returnType {kind : RoutineKind} {returnType? : Option Ty}
    (h : returnType?.isSome = true ↔ kind = .function) :
    Reads (returnType kind) (typeTokens returnType?) anyNext (· = returnType?) := by
  match kind, returnType?, h with
  | .procedure, none, _ => exact reads_pure rfl
  | .function, some ty, _ =>
    refine reads_expect ((reads_type ty).bind_nil (fun _ h => h) ?_)
    rintro _ rfl
    exact reads_pure rfl

/-- The statements of a routine follow. -/
abbrev debutNext (next : Option Token) : Prop := next = some (.keyword .debut)

theorem reads_noLocals (bound : Nat) : Reads (localsWithin (bound + 1)) [] debutNext (· = []) := by
  refine reads_skip ?_ (reads_get fun ls rest hls hrest => ?_)
  · rintro _ rfl
    rfl
  obtain rfl := List.map_eq_nil_iff.1 hls
  obtain ⟨span, rest, rfl⟩ := eq_cons_of_nextToken? hrest
  exact reads_pure rfl

theorem reads_locals {locals : List VarDecl} (h : ∀ d ∈ locals, d.WellFormed) (bound : Nat) :
    Reads (localsWithin (bound + 2)) (.newline :: localTokens locals) debutNext
      (·.map VarDecl.unlined = locals.map VarDecl.unlined) := by
  cases locals with
  | nil =>
    refine reads_skip_newline ?_
    intro ls rest hls hrest
    obtain ⟨_, hnone, rfl⟩ := reads_noLocals (bound + 1) ls rest hls hrest
    exact ⟨[], hnone, rfl⟩
  | cons first others =>
    refine reads_skip_newline (reads_skip (fun _ _ => rfl) (reads_get fun ls rest hls _ => ?_))
    have hnext : nextToken? (ls ++ rest) = some (.keyword .vars) := by
      rw [nextToken?_append, hls]
      rfl
    -- one turn reads the section, the next one finds that no other follows
    rw [if_pos (show (ls ++ rest).head?.map Lexeme.token = some (.keyword .vars) from hnext)]
    have hsection := reads_declarationSection .vars (fun _ => startsVarDecl_keyword)
      fun d hd => VarDecl.readsLine (h d hd)
    refine hsection.bind_nil (fun next hnext => ⟨.debut, hnext⟩) fun locals' hlocals => ?_
    refine (reads_noLocals bound).bind_nil (fun _ h => h) ?_
    rintro _ rfl
    exact reads_pure (by rw [List.append_nil, hlocals])

theorem reads_routineRest {routine : Routine} {bodyTokens : List Token} (h : routine.WellFormed)
    (hbody : WrittenBlock routine.body bodyTokens) (line : Nat) :
    Reads (routineRest routine.kind line)
      (routine.tokens bodyTokens).tail anyNext (·.unlined = routine.unlined) := by
  have hparams : Reads (closedList param)
      (commas (routine.params.map Param.tokens) ++ [.punct .rparen]) anyNext
      (·.map id = routine.params.map id) :=
    reads_closedList trivial trivial (fun p _ => ⟨_, _, rfl, by simp⟩) fun p hp =>
      reads_param (h.params p hp)
  refine (reads_declaredName h.name).bind (fun _ _ => trivial) ?_
  rintro _ rfl
  refine reads_expect ?_
  rw [List.append_cons]
  refine hparams.bind (fun _ _ => trivial) fun params hparams' => ?_
  rw [List.map_id, List.map_id] at hparams'
  refine (reads_returnType h.returnType).bind (fun _ _ => trivial) ?_
  rintro _ rfl
  refine reads_length fun left hleft => ?_
  obtain ⟨n, hn⟩ := Nat.exists_eq_add_one_of_ne_zero (Nat.ne_zero_of_lt hleft)
  rw [hn]
  refine (reads_locals h.locals n).bind (fun _ _ => rfl) fun locals hlocals => reads_accept ?_
  refine (hbody.reads_block h.body (by decide)).bind (fun _ _ => ⟨.keyword .fin, by simp, rfl⟩)
    fun body hbody' => reads_expect (reads_pure ?_)
  rw [Routine.unlined, hparams', hlocals, hbody']
  rfl

theorem reads_routine {routine : Routine} {bodyTokens : List Token} (h : routine.WellFormed)
    (hbody : WrittenBlock routine.body bodyTokens) :
    Reads routine? (routine.tokens bodyTokens) anyNext
      (·.map Routine.unlined = some routine.unlined) := by
  have hrest := reads_routineRest h hbody
  obtain ⟨kind, name, params, returnType?, locals, body, line⟩ := routine
  cases kind with
  | procedure =>
    refine reads_peek fun span => reads_next fun _ => (hrest span.line).map fun r hr => ?_
    rw [Option.map_some, hr]
  | function =>
    refine reads_peek fun span => reads_next fun _ => (hrest span.line).map fun r hr => ?_
    rw [Option.map_some, hr]

end Pseudocode
