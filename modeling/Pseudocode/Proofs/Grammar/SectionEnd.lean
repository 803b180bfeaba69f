import Mathlib.Data.List.Basic
import Pseudocode.Proofs.Grammar.RoundTrip

/-! # Where the last section ends

In a script nothing but the next line tells where a section ends. What is written for a statement is
never seen as the start of a line of variables, and as the start of a line of constants only if it is
an assignment, which has the form of such a line.

* `Written.startsVarDecl`, `Written.startsConstDecl`: what a statement is seen as.
* `declarations_lines`, `sectionsWithin_items`: what is written is read, and the parser goes on.
* `sectionsWithin_before`, `sectionsWithin_overrun`: sections before the lines of statements. -/

namespace Pseudocode
set_option autoImplicit false
open Pseudocode.Parser

/-! ## How a statement starts -/

/-- The form that an assignment has in common with a line of a section of constants. -/
def Statement.IsAssignment (statement : Statement) : Prop :=
  ∃ target value line, statement = .assign target value line

/-- A statement starts with a word, or with a name and a mark that only follows a name in a line of
declarations if the statement is an assignment. -/
theorem Written.form {statement : Statement} {tokens : List Token} (h : Written statement tokens) :
    ¬statement.IsAssignment ∧ (∃ word rest, tokens = .keyword word :: rest) ∨
      ¬statement.IsAssignment ∧ (∃ name rest, tokens = .ident name :: .punct .lparen :: rest) ∨
      statement.IsAssignment ∧ ∃ name rest, tokens = .ident name :: .punct .assign :: rest := by
  cases h with
  | assign target value line => exact .inr (.inr ⟨⟨target, value, line, rfl⟩, target, _, rfl⟩)
  | call name arguments line => exact .inr (.inl ⟨nofun, name, _, rfl⟩)
  | _ => exact .inl ⟨nofun, _, _, rfl⟩

section Start
variable {statement : Statement} {tokens more : List Token} {ls : List Lexeme}
  (h : Written statement tokens) (hls : ls.map Lexeme.token = tokens ++ more)
include h hls

/-- The first token, which decides whether there is another section. -/
theorem Written.row_head : ∃ first rest, ls = first :: rest ∧ first.token.startsStatement = true := by
  obtain ⟨token, row, rfl, hstart⟩ := h.starts
  obtain ⟨first, rest, rfl, rfl, -⟩ := List.map_eq_cons_iff.1 hls
  exact ⟨first, rest, rfl, hstart⟩

theorem Written.startsVarDecl : Parser.startsVarDecl ls = false := by
  obtain ⟨-, word, rest, rfl⟩ | ⟨-, name, rest, rfl⟩ | ⟨-, name, rest, rfl⟩ := h.form
  · obtain ⟨⟨_, span⟩, ls, rfl, rfl, -⟩ := List.map_eq_cons_iff.1 hls
    rfl
  · obtain ⟨⟨_, span⟩, ls, rfl, rfl, hrest⟩ := List.map_eq_cons_iff.1 hls
    obtain ⟨⟨_, span'⟩, ls, rfl, rfl, -⟩ := List.map_eq_cons_iff.1 hrest
    rfl
  · obtain ⟨⟨_, span⟩, ls, rfl, rfl, hrest⟩ := List.map_eq_cons_iff.1 hls
    obtain ⟨⟨_, span'⟩, ls, rfl, rfl, -⟩ := List.map_eq_cons_iff.1 hrest
    rfl

theorem Written.startsConstDecl : Parser.startsConstDecl ls = true ↔ statement.IsAssignment := by
  obtain ⟨hother, word, rest, rfl⟩ | ⟨hother, name, rest, rfl⟩ | ⟨hassign, name, rest, rfl⟩ := h.form
  · obtain ⟨⟨_, span⟩, ls, rfl, rfl, -⟩ := List.map_eq_cons_iff.1 hls
    exact ⟨nofun, fun hassign => absurd hassign hother⟩
  · obtain ⟨⟨_, span⟩, ls, rfl, rfl, hrest⟩ := List.map_eq_cons_iff.1 hls
    obtain ⟨⟨_, span'⟩, ls, rfl, rfl, -⟩ := List.map_eq_cons_iff.1 hrest
    exact ⟨nofun, fun hassign => absurd hassign hother⟩
  · obtain ⟨⟨_, span⟩, ls, rfl, rfl, hrest⟩ := List.map_eq_cons_iff.1 hls
    obtain ⟨⟨_, span'⟩, ls, rfl, rfl, -⟩ := List.map_eq_cons_iff.1 hrest
    exact ⟨fun _ => hassign, fun _ => rfl⟩

end Start

theorem section?_statement {first : Lexeme} {rest : List Lexeme}
    (h : first.token.startsStatement = true) : section? (first :: rest) = .ok (none, first :: rest) := by
  obtain ⟨token, span⟩ := first
  cases token with
  | ident name => rfl
  | keyword word => cases word <;> first | rfl | cases h
  | _ => cases h

/-! ## Lines of a section -/

namespace Parser
variable {α β : Type}

theorem skip_newline {f : Unit → Parser β} {span : Span} {ls : List Lexeme} :
    (skipSeparators >>= f) (⟨.newline, span⟩ :: ls) = (skipSeparators >>= f) ls := rfl

theorem skip_none {f : Unit → Parser β} {ls : List Lexeme}
    (h : (nextToken? ls).any Token.isSeparator = false) : (skipSeparators >>= f) ls = f () ls := by
  have hskip : skipSeparators ls = .ok ((), ls) := by
    cases ls with
    | nil => rfl
    | cons first rest =>
      have hfirst : first.token.isSeparator = false := h
      rw [skipSeparators, List.dropWhile_cons_of_neg (by rw [hfirst]; exact Bool.false_ne_true)]
  exact bind_ok hskip

/-- A list of which the first item is read already. -/
theorem cons_run (a : α) (p : Parser (List α)) (ls : List Lexeme) :
    (p >>= fun more => pure (a :: more)) ls =
      (p ls).map fun result => (a :: result.1, result.2) := by
  change (p ls >>= fun result => Except.ok (a :: result.1, result.2)) = _
  cases p ls <;> rfl

end Parser

section Lines
variable {α β : Type} {starts : List Lexeme → Bool} {declaration : Parser α}
  {write : α → List Token} {erase : α → β}

theorem nextToken?_lines {rows : List (List Token)} {ls rest : List Lexeme}
    (hls : ls.map Lexeme.token = rows.flatMap (.newline :: ·)) (hrest : endsLine (nextToken? rest)) :
    endsLine (nextToken? (ls ++ rest)) := by
  rw [nextToken?_append, hls]
  cases rows with
  | nil => exact hrest
  | cons row rows => rfl

/-- The lines that are written for declarations are read as these, and the parser goes on. -/
theorem declarations_lines {xs : List α} (bound : Nat)
    (hlines : ∀ x ∈ xs, ReadsLine starts declaration write erase x) {ls rest : List Lexeme}
    (hls : ls.map Lexeme.token = (xs.map write).flatMap (.newline :: ·))
    (hrest : endsLine (nextToken? rest)) :
    ∃ xs', xs'.map erase = xs.map erase ∧
      declarations starts declaration (xs.length + bound) (ls ++ rest) =
        (declarations starts declaration bound rest).map fun result =>
          (xs' ++ result.1, result.2) := by
  induction xs generalizing ls with
  | nil =>
    obtain rfl := List.map_eq_nil_iff.1 hls
    refine ⟨[], rfl, ?_⟩
    rw [List.length_nil, Nat.zero_add, List.nil_append]
    cases declarations starts declaration bound rest <;> rfl
  | cons x xs ih =>
    obtain ⟨⟨_, newline⟩, row, rfl, rfl, hrow⟩ := List.map_eq_cons_iff.1 hls
    obtain ⟨line, row, rfl, hline, hmore⟩ := List.map_eq_append_iff.1 hrow
    have hx := hlines x List.mem_cons_self
    obtain ⟨x', hfirst, hx'⟩ := hx.reads line (row ++ rest) hline (nextToken?_lines hmore hrest)
    obtain ⟨xs', hxs', hothers⟩ := ih (fun y hy => hlines y (List.mem_cons_of_mem x hy)) hmore
    have hstarts : starts (line ++ (row ++ rest)) = true :=
      hx.starts _ ((row ++ rest).map Lexeme.token) (by rw [List.map_append, hline])
    obtain ⟨name, after, hname⟩ := hx.first
    rw [hname] at hline
    obtain ⟨⟨_, place⟩, line, rfl, rfl, -⟩ := List.map_eq_cons_iff.1 hline
    refine ⟨x' :: xs', by rw [List.map_cons, hx', hxs', List.map_cons], ?_⟩
    rw [List.length_cons, Nat.add_right_comm, List.cons_append, List.append_assoc, declarations,
      skip_newline, List.cons_append, skip_none rfl, get_bind, ← List.cons_append, if_pos hstarts,
      bind_ok hfirst, cons_run, hothers]
    cases declarations starts declaration bound rest <;> rfl

theorem declarationSection_lines {word : Keyword} {xs : List α}
    (hlines : ∀ x ∈ xs, ReadsLine starts declaration write erase x) {ls rest : List Lexeme}
    (hls : ls.map Lexeme.token = sectionTokens word (xs.map write))
    (hrest : endsLine (nextToken? rest)) :
    ∃ xs' bound, xs'.map erase = xs.map erase ∧
      declarationSection word starts declaration (ls ++ rest) =
        (declarations starts declaration (bound + 1) rest).map fun result =>
          (xs' ++ result.1, result.2) := by
  obtain ⟨⟨_, place⟩, ls, rfl, rfl, hlines'⟩ := List.map_eq_cons_iff.1 hls
  have hnext : nextToken? (ls ++ rest) = some .newline := nextToken?_lines hlines' hrest
  have hlength : xs.length ≤ (ls ++ rest).length := by
    have hle := length_le_lines (xs.map write)
    rw [← hlines', List.length_map, List.length_map] at hle
    rw [List.length_append]
    omega
  obtain ⟨bound, hbound⟩ := Nat.exists_eq_add_of_le hlength
  obtain ⟨xs', hxs', heq⟩ := declarations_lines (bound + 1) hlines hlines' hrest
  refine ⟨xs', bound, hxs', ?_⟩
  rw [declarationSection, List.cons_append, bind_ok expect_ok,
    bind_ok (accept_neg (by rw [hnext]; exact nofun)), get_bind, hbound, Nat.add_assoc, heq]

variable {after : List Lexeme} {newline : Span} {bound : Nat}
  (hnext : (nextToken? after).any Token.isSeparator = false)
include hnext

theorem declarations_stop (hstarts : starts after = false) :
    declarations starts declaration (bound + 1) (⟨.newline, newline⟩ :: after) = .ok ([], after) := by
  rw [declarations, skip_newline, skip_none hnext, get_bind, hstarts, if_neg Bool.false_ne_true]
  rfl

theorem declarations_go_on (hstarts : starts after = true) {found : List α} {left : List Lexeme}
    (h : declarations starts declaration (bound + 1) (⟨.newline, newline⟩ :: after) =
      .ok (found, left)) : 0 < found.length := by
  rw [declarations, skip_newline, skip_none hnext, get_bind, hstarts, if_pos rfl] at h
  obtain ⟨x, middle, -, hmore⟩ := exists_of_bind_ok h
  obtain ⟨xs, left', -, hpure⟩ := exists_of_bind_ok hmore
  cases hpure
  exact Nat.succ_pos _

end Lines

/-! ## Sections and routines -/

theorem not_separator_of_keywordNext {next : Option Token} (h : keywordNext next) :
    next.any Token.isSeparator = false := by
  obtain ⟨word, rfl⟩ := h
  rfl

theorem sectionsWithin_item {found : Item} {bound : Nat} {ls rest : List Lexeme}
    (hnext : (nextToken? ls).any Token.isSeparator = false)
    (h : section? ls = .ok (some found, rest)) :
    sectionsWithin (bound + 1) ls =
      (sectionsWithin bound rest).map fun result => (found :: result.1, result.2) := by
  rw [sectionsWithin, skip_none hnext, bind_ok h]
  exact cons_run found (sectionsWithin bound) rest

theorem WrittenItem.keywordNext {item : Item} {tokens : List Token} (h : WrittenItem item tokens)
    {ls : List Lexeme} (hls : ls.map Lexeme.token = tokens) (rest : List Lexeme) :
    Pseudocode.keywordNext (nextToken? (ls ++ rest)) := by
  obtain ⟨word, row, rfl, -⟩ := h.head
  rw [nextToken?_append, hls]
  exact ⟨word, rfl⟩

theorem WrittenItems.keywordNext {items : List Item} {tokens : List Token}
    (h : WrittenItems items tokens) {ls rest : List Lexeme} (hls : ls.map Lexeme.token = tokens)
    (hrest : keywordNext (nextToken? rest)) : Pseudocode.keywordNext (nextToken? (ls ++ rest)) := by
  cases h with
  | nil =>
    obtain rfl := List.map_eq_nil_iff.1 hls
    exact hrest
  | cons hitem _ =>
    obtain ⟨row, others, rfl, hrow, -⟩ := List.map_eq_append_iff.1 hls
    rw [List.append_assoc]
    exact hitem.keywordNext hrow _

/-- The sections and routines that are written are read, and the parser goes on with what starts
with the word of the next one. -/
theorem sectionsWithin_items {items : List Item} {tokens : List Token} (h : WrittenItems items tokens)
    (hwf : ∀ item ∈ items, item.WellFormed) (bound : Nat) {ls rest : List Lexeme}
    (hls : ls.map Lexeme.token = tokens) (hrest : keywordNext (nextToken? rest)) :
    ∃ items', items'.map Item.unlined = items.map Item.unlined ∧
      sectionsWithin (items.length + (bound + 1)) (ls ++ rest) =
        (sectionsWithin (bound + 1) rest).map fun result => (items' ++ result.1, result.2) := by
  induction h generalizing ls with
  | nil =>
    obtain rfl := List.map_eq_nil_iff.1 hls
    refine ⟨[], rfl, ?_⟩
    rw [List.length_nil, Nat.zero_add, List.nil_append]
    cases sectionsWithin (bound + 1) rest <;> rfl
  | @cons item items tokens restTokens hitem hitems ih =>
    obtain ⟨l₁, row, rfl, hl₁, hrow⟩ := List.map_eq_append_iff.1 hls
    obtain ⟨⟨_, newline⟩, l₂, rfl, rfl, hl₂⟩ := List.map_eq_cons_iff.1 hrow
    obtain ⟨items', hitems', hothers⟩ :=
      ih (fun other hother => hwf other (List.mem_cons_of_mem item hother)) hl₂
    have hnext := hitems.keywordNext hl₂ hrest
    -- whether the section takes the end of its line or not, the next one is found
    obtain ⟨item', rest', hitem', hsection, hmore⟩ : ∃ item' rest',
        item'.unlined = item.unlined ∧ section? (l₁ ++ ⟨.newline, newline⟩ :: (l₂ ++ rest)) =
          .ok (some item', rest') ∧
        sectionsWithin (items.length + (bound + 1)) rest' =
          sectionsWithin (items.length + (bound + 1)) (l₂ ++ rest) := by
      rcases hitem.reads_section (hwf item List.mem_cons_self) with hread | hread
      · obtain ⟨found, hfound, heq⟩ := hread (l₁ ++ [⟨.newline, newline⟩]) (l₂ ++ rest)
          (by rw [List.map_append, hl₁]; rfl) hnext
        obtain ⟨item', rfl, hitem'⟩ := Option.map_eq_some_iff.1 heq
        rw [List.append_assoc] at hfound
        exact ⟨item', _, hitem', hfound, rfl⟩
      · obtain ⟨found, hfound, heq⟩ := hread l₁ (⟨.newline, newline⟩ :: (l₂ ++ rest)) hl₁ trivial
        obtain ⟨item', rfl, hitem'⟩ := Option.map_eq_some_iff.1 heq
        exact ⟨item', _, hitem', hfound, rfl⟩
    have hhead := not_separator_of_keywordNext
      (hitem.keywordNext hl₁ (⟨.newline, newline⟩ :: (l₂ ++ rest)))
    refine ⟨item' :: items', by rw [List.map_cons, hitem', hitems', List.map_cons], ?_⟩
    rw [List.length_cons, Nat.add_right_comm, List.append_assoc, List.cons_append,
      sectionsWithin_item hhead hsection, hmore, hothers]
    cases sectionsWithin (bound + 1) rest <;> rfl

theorem WrittenItems.concat {init : List Item} {last : Item} {tokens : List Token}
    (h : WrittenItems (init ++ [last]) tokens) :
    ∃ initTokens lastTokens, tokens = initTokens ++ (lastTokens ++ [.newline]) ∧
      WrittenItems init initTokens ∧ WrittenItem last lastTokens := by
  induction init generalizing tokens with
  | nil =>
    cases h with
    | cons hlast hnil =>
      cases hnil
      exact ⟨[], _, rfl, .nil, hlast⟩
  | cons item init ih =>
    cases h with
    | cons hitem hrest =>
      obtain ⟨initTokens, lastTokens, rfl, hinit, hlast⟩ := ih hrest
      refine ⟨_, lastTokens, ?_, .cons hitem hinit, hlast⟩
      simp only [List.append_assoc, List.cons_append]

/-! ## Before the lines of statements -/

/-- The part is a section of constants. -/
def Item.IsConstants (item : Item) : Prop := ∃ ds, item = .constants ds

/-- The constants that are declared in the part. -/
def Item.declaredConstants : Item → List ConstDecl
  | .constants ds => ds
  | _ => []

theorem declaredConstants_unlined (items : List Item) :
    (items.map Item.unlined).flatMap Item.declaredConstants =
      (items.flatMap Item.declaredConstants).map ConstDecl.unlined := by
  rw [List.flatMap_map, List.map_flatMap]
  congr 1
  funext item
  cases item <;> rfl

theorem Parser.map_run {α β : Type} (f : α → β) (p : Parser α) (ls : List Lexeme) :
    (f <$> p) ls = (p ls).map fun result => (f result.1, result.2) := by
  rw [map_eq_pure_bind]
  change (p ls >>= fun result => Except.ok (f result.1, result.2)) = _
  cases p ls <;> rfl

theorem section?_constants {ds : List ConstDecl} (hwf : (Item.constants ds).WellFormed)
    {ls : List Lexeme}
    (hls : ls.map Lexeme.token = sectionTokens .constantes (ds.map ConstDecl.tokens))
    (rest : List Lexeme) (hrest : endsLine (nextToken? rest)) :
    ∃ ds' bound, ds'.map ConstDecl.unlined = ds.map ConstDecl.unlined ∧ section? (ls ++ rest) =
      (declarations startsConstDecl constDecl (bound + 1) rest).map fun result =>
        (some (.constants (ds' ++ result.1)), result.2) := by
  obtain ⟨ds', bound, hds', heq⟩ := declarationSection_lines
    (fun (d : ConstDecl) hd => ConstDecl.readsLine (hwf d hd)) hls hrest
  obtain ⟨⟨_, place⟩, ls, rfl, rfl, -⟩ := List.map_eq_cons_iff.1 hls
  refine ⟨ds', bound, hds', ?_⟩
  change ((some ∘ Item.constants) <$> constSection) _ = _
  rw [map_run, constSection, heq]
  cases declarations startsConstDecl constDecl (bound + 1) rest <;> rfl

theorem section?_vars {ds : List VarDecl} (hwf : (Item.vars ds).WellFormed) {ls : List Lexeme}
    (hls : ls.map Lexeme.token = sectionTokens .vars (ds.map VarDecl.tokens))
    (rest : List Lexeme) (hrest : endsLine (nextToken? rest)) :
    ∃ ds' bound, ds'.map VarDecl.unlined = ds.map VarDecl.unlined ∧ section? (ls ++ rest) =
      (declarations Parser.startsVarDecl varDecl (bound + 1) rest).map fun result =>
        (some (.vars (ds' ++ result.1)), result.2) := by
  obtain ⟨ds', bound, hds', heq⟩ := declarationSection_lines
    (fun (d : VarDecl) hd => VarDecl.readsLine (hwf d hd)) hls hrest
  obtain ⟨⟨_, place⟩, ls, rfl, rfl, -⟩ := List.map_eq_cons_iff.1 hls
  refine ⟨ds', bound, hds', ?_⟩
  change ((some ∘ Item.vars) <$> varSection) _ = _
  rw [map_run, varSection, heq]
  cases declarations Parser.startsVarDecl varDecl (bound + 1) rest <;> rfl

section Before
variable {item : Item} {itemTokens : List Token} (hitem : WrittenItem item itemTokens)
  (hwf : item.WellFormed) {ls after : List Lexeme} (newline : Span)
  (hls : ls.map Lexeme.token = itemTokens)
  {statement : Statement} {tokens more : List Token} (hwritten : Written statement tokens)
  (hafter : after.map Lexeme.token = tokens ++ more)
include hwritten hafter

theorem Written.row_not_separator : (nextToken? after).any Token.isSeparator = false := by
  obtain ⟨first, rest, rfl, hfirst⟩ := hwritten.row_head hafter
  exact Token.not_separator_of_startsStatement hfirst

include hitem hwf hls

/-- A section ends before a statement, unless it could be one more line of constants. -/
theorem WrittenItem.section_before (hlast : ¬(item.IsConstants ∧ statement.IsAssignment)) :
    ∃ item' rest, section? (ls ++ ⟨.newline, newline⟩ :: after) = .ok (some item', rest) ∧
      item'.unlined = item.unlined ∧ (rest = after ∨ rest = ⟨.newline, newline⟩ :: after) := by
  have hnext := hwritten.row_not_separator hafter
  cases hitem with
  | constants ds =>
    obtain ⟨ds', bound, hds', heq⟩ := section?_constants hwf hls (⟨.newline, newline⟩ :: after) rfl
    have hstarts : startsConstDecl after = false := by
      rw [Bool.eq_false_iff, ne_eq, hwritten.startsConstDecl hafter]
      exact fun hassign => hlast ⟨⟨ds, rfl⟩, hassign⟩
    rw [declarations_stop hnext hstarts] at heq
    refine ⟨_, after, heq, ?_, .inl rfl⟩
    rw [List.append_nil, Item.unlined, hds', Item.unlined]
  | vars ds =>
    obtain ⟨ds', bound, hds', heq⟩ := section?_vars hwf hls (⟨.newline, newline⟩ :: after) rfl
    rw [declarations_stop hnext (hwritten.startsVarDecl hafter)] at heq
    refine ⟨_, after, heq, ?_, .inl rfl⟩
    rw [List.append_nil, Item.unlined, hds', Item.unlined]
  | routine hbody =>
    obtain ⟨found, hfound, heq⟩ := reads_routineSection hwf hbody ls (⟨.newline, newline⟩ :: after)
      hls trivial
    obtain ⟨item', rfl, hitem'⟩ := Option.map_eq_some_iff.1 heq
    exact ⟨item', _, hfound, hitem', .inr rfl⟩

/-- A section of constants takes an assignment for one more of its lines. -/
theorem WrittenItem.section_overrun (hconstants : item.IsConstants)
    (hassign : statement.IsAssignment) {found : Option Item} {rest : List Lexeme}
    (h : section? (ls ++ ⟨.newline, newline⟩ :: after) = .ok (found, rest)) :
    ∃ item', found = some item' ∧
      item.declaredConstants.length < item'.declaredConstants.length := by
  obtain ⟨ds, rfl⟩ := hconstants
  cases hitem
  obtain ⟨ds', bound, hds', heq⟩ := section?_constants hwf hls (⟨.newline, newline⟩ :: after) rfl
  have hstarts : startsConstDecl after = true := (hwritten.startsConstDecl hafter).2 hassign
  rw [heq] at h
  cases hmore : declarations startsConstDecl constDecl (bound + 1) (⟨.newline, newline⟩ :: after) with
  | error e =>
    rw [hmore] at h
    cases h
  | ok result =>
    obtain ⟨others, left⟩ := result
    have hothers := declarations_go_on (hwritten.row_not_separator hafter) hstarts hmore
    rw [hmore] at h
    cases h
    refine ⟨_, rfl, ?_⟩
    have hlength : ds'.length = ds.length := by
      rw [← List.length_map (f := ConstDecl.unlined), hds', List.length_map]
    simp only [Item.declaredConstants, List.length_append]
    omega

end Before

/-- What stands before the last section or routine is read, and the parser goes on with that one. -/
theorem sectionsWithin_init {init : List Item} {last : Item} {itemTokens : List Token}
    (hitems : WrittenItems (init ++ [last]) itemTokens)
    (hwf : ∀ item ∈ init ++ [last], item.WellFormed) {ls : List Lexeme}
    (hls : ls.map Lexeme.token = itemTokens) (bound : Nat) (after : List Lexeme) :
    ∃ init' lastTokens lastRow newline, init'.map Item.unlined = init.map Item.unlined ∧
      WrittenItem last lastTokens ∧ lastRow.map Lexeme.token = lastTokens ∧
      sectionsWithin ((init ++ [last]).length + (bound + 1)) (ls ++ after) =
        (sectionsWithin (bound + 1 + 1) (lastRow ++ ⟨.newline, newline⟩ :: after)).map
          fun result => (init' ++ result.1, result.2) := by
  obtain ⟨initTokens, lastTokens, rfl, hinit, hlast⟩ := hitems.concat
  obtain ⟨initRow, row, rfl, hinitRow, hrow⟩ := List.map_eq_append_iff.1 hls
  obtain ⟨lastRow, row, rfl, hlastRow, hend⟩ := List.map_eq_append_iff.1 hrow
  obtain ⟨⟨_, newline⟩, rfl, rfl⟩ := List.map_eq_singleton_iff.1 hend
  have hnext := hlast.keywordNext hlastRow (⟨.newline, newline⟩ :: after)
  obtain ⟨init', hinit', heq⟩ := sectionsWithin_items hinit
    (fun item hitem => hwf item (List.mem_append_left _ hitem)) (bound + 1) hinitRow hnext
  refine ⟨init', lastTokens, lastRow, newline, hinit', hlast, hlastRow, ?_⟩
  rw [List.length_append, List.length_singleton, Nat.add_assoc, Nat.add_comm 1 (bound + 1),
    List.append_assoc, List.append_assoc, List.singleton_append, heq]

section Sections
variable {items : List Item} {itemTokens : List Token} (hitems : WrittenItems items itemTokens)
  (hwf : ∀ item ∈ items, item.WellFormed) {ls after : List Lexeme}
  (hls : ls.map Lexeme.token = itemTokens)
  {statement : Statement} {tokens more : List Token} (hwritten : Written statement tokens)
  (hafter : after.map Lexeme.token = tokens ++ more) (bound : Nat)
include hwritten hafter

theorem sectionsWithin_statement : sectionsWithin (bound + 1) after = .ok ([], after) := by
  have hnext := hwritten.row_not_separator hafter
  obtain ⟨first, rest, rfl, hfirst⟩ := hwritten.row_head hafter
  rw [sectionsWithin, skip_none hnext, bind_ok (section?_statement hfirst)]
  rfl

include hitems hwf hls

/-- The sections end before the lines of statements, unless the last of them is one of constants and
the first statement could be one more line of it. -/
theorem sectionsWithin_before
    (hlast : ∀ last ∈ items.getLast?, ¬(last.IsConstants ∧ statement.IsAssignment)) :
    ∃ items', items'.map Item.unlined = items.map Item.unlined ∧
      sectionsWithin (items.length + (bound + 1)) (ls ++ after) = .ok (items', after) := by
  have hdone := sectionsWithin_statement hwritten hafter bound
  rcases items.eq_nil_or_concat' with rfl | ⟨init, last, rfl⟩
  · cases hitems
    obtain rfl := List.map_eq_nil_iff.1 hls
    refine ⟨[], rfl, ?_⟩
    rw [List.length_nil, Nat.zero_add]
    exact hdone
  · obtain ⟨init', lastTokens, lastRow, newline, hinit', hitem, hrow, heq⟩ :=
      sectionsWithin_init hitems hwf hls bound after
    obtain ⟨last', rest, hsection, hlast', hrest⟩ := hitem.section_before
      (hwf last (List.mem_append_right _ List.mem_cons_self)) newline hrow hwritten hafter
      (hlast last (by simp))
    have hhead := not_separator_of_keywordNext (hitem.keywordNext hrow (⟨.newline, newline⟩ :: after))
    have hleft : sectionsWithin (bound + 1) rest = .ok ([], after) := by
      rcases hrest with rfl | rfl <;> exact hdone
    refine ⟨init' ++ [last'], ?_, ?_⟩
    · rw [List.map_append, hinit', List.map_append, List.map_singleton, hlast', List.map_singleton]
    · rw [heq, sectionsWithin_item hhead hsection, hleft]
      rfl

/-- Where the first statement could be one more line of the last section, which is one of constants,
no parse of the sections declares only the constants that are meant. -/
theorem sectionsWithin_overrun {last : Item} (hlast : items.getLast? = some last)
    (hconstants : last.IsConstants) (hassign : statement.IsAssignment) {found : List Item}
    {rest : List Lexeme}
    (h : sectionsWithin (items.length + (bound + 1)) (ls ++ after) = .ok (found, rest)) :
    (items.flatMap Item.declaredConstants).length <
      (found.flatMap Item.declaredConstants).length := by
  obtain ⟨init, rfl⟩ := List.getLast?_eq_some_iff.1 hlast
  obtain ⟨init', lastTokens, lastRow, newline, hinit', hitem, hrow, heq⟩ :=
    sectionsWithin_init hitems hwf hls bound after
  rw [heq] at h
  cases hmore : sectionsWithin (bound + 1 + 1) (lastRow ++ ⟨.newline, newline⟩ :: after) with
  | error e =>
    rw [hmore] at h
    cases h
  | ok result =>
    obtain ⟨found', rest'⟩ := result
    rw [hmore] at h
    cases h
    have hhead := not_separator_of_keywordNext (hitem.keywordNext hrow (⟨.newline, newline⟩ :: after))
    rw [sectionsWithin, skip_none hhead] at hmore
    obtain ⟨section', left, hsection, hothers⟩ := exists_of_bind_ok hmore
    obtain ⟨item', rfl, hless⟩ := hitem.section_overrun
      (hwf last (List.mem_append_right _ List.mem_cons_self)) newline hrow hwritten hafter hconstants
      hassign hsection
    obtain ⟨others, left', -, hpure⟩ := exists_of_bind_ok hothers
    cases hpure
    have hcounts : (init'.flatMap Item.declaredConstants).length =
        (init.flatMap Item.declaredConstants).length := by
      rw [← List.length_map (f := ConstDecl.unlined), ← declaredConstants_unlined, hinit',
        declaredConstants_unlined, List.length_map]
    simp only [List.flatMap_append, List.flatMap_cons, List.flatMap_nil, List.length_append,
      List.length_nil, hcounts]
    omega

end Sections
end Pseudocode
