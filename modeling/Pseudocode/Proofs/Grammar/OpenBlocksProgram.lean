import Pseudocode.Proofs.Grammar.OpenBlocks

/-! # The tokens of a program

Between the statements of a program stand its declarations, the first and last words of routines and
of the main block, and separators: no block is open there.

* `ProgramRow`: the tokens of a program, each with the number of blocks that are open after it.
* `takesAll_program`: the parser takes all tokens, and they are those of the program it builds. -/

namespace Pseudocode
set_option autoImplicit false

open Row (level)

/-! ## Rows -/

/-- Flat tokens on several lines. -/
inductive Loose : List Lexeme → Prop where
  | flat {ls : List Lexeme} : Flat ls → Loose ls
  | separator {lexeme : Lexeme} : lexeme.token.isSeparator = true → Loose [lexeme]
  | append {ls rs : List Lexeme} : Loose ls → Loose rs → Loose (ls ++ rs)

theorem Loose.nil : Loose [] := .flat .nil

theorem Loose.cons {lexeme : Lexeme} {ls : List Lexeme} (h : lexeme.token.isInline = true)
    (hls : Loose ls) : Loose (lexeme :: ls) :=
  (Loose.flat (.token h)).append hls

theorem Loose.separators {ls : List Lexeme}
    (h : ∀ lexeme ∈ ls, lexeme.token.isSeparator = true) : Loose ls := by
  induction ls with
  | nil => exact .nil
  | cons lexeme rest ih =>
    obtain ⟨hlexeme, hrest⟩ := List.forall_mem_cons.1 h
    exact (Loose.separator hlexeme).append (ih hrest)

/-- The tokens of a part of a program. -/
inductive ItemRow : Item → Row → Prop where
  | constants {declarations : List ConstDecl} {ls : List Lexeme} :
      Loose ls → ItemRow (.constants declarations) (level 0 ls)
  | vars {declarations : List VarDecl} {ls : List Lexeme} :
      Loose ls → ItemRow (.vars declarations) (level 0 ls)
  | routine {routine : Routine} {head : List Lexeme} {row : Row} (fin : Span) :
      Loose head → BlockRow 0 routine.body row →
      ItemRow (.routine routine) (level 0 head ++ row ++ [(⟨.keyword .fin, fin⟩, 0)])
  | statements {block : List Statement} {row : Row} :
      BlockRow 0 block row → ItemRow (.statements block) row

/-- The tokens of the parts of a program and those between them. -/
inductive ItemsRow : List Item → Row → Prop where
  | nil : ItemsRow [] []
  | loose {items : List Item} {ls : List Lexeme} {row : Row} :
      Loose ls → ItemsRow items row → ItemsRow items (level 0 ls ++ row)
  | cons {item : Item} {items : List Item} {row row' : Row} :
      ItemRow item row → ItemsRow items row' → ItemsRow (item :: items) (row ++ row')

theorem ItemsRow.append {items items' : List Item} {row row' : Row} (h : ItemsRow items row)
    (h' : ItemsRow items' row') : ItemsRow (items ++ items') (row ++ row') := by
  induction h with
  | nil => exact h'
  | loose hls _ ih =>
    rw [List.append_assoc]
    exact .loose hls ih
  | cons hitem _ ih =>
    rw [List.append_assoc]
    exact .cons hitem ih

/-- The tokens of a program. -/
def ProgramRow (program : Program) (row : Row) : Prop :=
  ∃ name items, program = .ofItems name items ∧ ItemsRow items row

def HasItemRow (item : Item) (ls : List Lexeme) : Prop := ∃ row, ItemRow item row ∧ row.lexemes = ls

def HasItemsRow (items : List Item) (ls : List Lexeme) : Prop :=
  ∃ row, ItemsRow items row ∧ row.lexemes = ls

theorem HasItemsRow.nil : HasItemsRow [] [] := ⟨[], .nil, rfl⟩

theorem HasItemsRow.loose {items : List Item} {ls rs : List Lexeme} (hls : Loose ls)
    (h : HasItemsRow items rs) : HasItemsRow items (ls ++ rs) := by
  obtain ⟨row, hrow, rfl⟩ := h
  exact ⟨_, .loose hls hrow, by simp⟩

theorem HasItemsRow.cons {item : Item} {items : List Item} {ls rs : List Lexeme}
    (hitem : HasItemRow item ls) (h : HasItemsRow items rs) :
    HasItemsRow (item :: items) (ls ++ rs) := by
  obtain ⟨row, hrow, rfl⟩ := hitem
  obtain ⟨row', hrow', rfl⟩ := h
  exact ⟨_, .cons hrow hrow', by simp⟩

theorem HasItemsRow.append {items items' : List Item} {ls rs : List Lexeme}
    (h : HasItemsRow items ls) (h' : HasItemsRow items' rs) :
    HasItemsRow (items ++ items') (ls ++ rs) := by
  obtain ⟨row, hrow, rfl⟩ := h
  obtain ⟨row', hrow', rfl⟩ := h'
  exact ⟨_, hrow.append hrow', by simp⟩

namespace Parser
variable {ls : List Lexeme}

/-! ## Declarations -/

theorem takes_colon : Takes (accept (.punct .colon)) ls fun _ taken => Flat taken := by
  refine (takes_accept (.punct .colon)).mono fun found taken h => ?_
  obtain ⟨-, span, rfl⟩ | ⟨-, rfl⟩ := h
  · exact .token rfl
  · exact .nil

theorem takes_param : Takes param ls fun _ taken => Phrase taken := by
  refine takes_declaredName.bind fun name taken _ hname => ?_
  refine (takes_expect (.punct .colon)).bind fun _ colon _ ⟨span, hcolon⟩ => ?_
  subst hcolon
  refine takes_type.bind fun ty taken' _ hty => takes_pure ?_
  exact hname.append (.cons rfl (hty.1.append .nil))

theorem takes_varDecl : Takes varDecl ls fun _ taken => Phrase taken := by
  have hnames {ls : List Lexeme} : Takes (openList declaredName) ls fun _ taken => Phrase taken :=
    takes_openList fun _ => takes_declaredName
  refine takes_nextLine fun line => takes_peek ?_
  split
  · rename_i ty span hhead
    refine (takes_next_of_head hhead).bind fun _ first _ hfirst => ?_
    subst hfirst
    refine takes_colon.bind fun _ colon _ hcolon => ?_
    refine hnames.bind fun names taken _ htaken => takes_pure ?_
    exact .cons rfl (hcolon.append (htaken.1.append .nil))
  · refine hnames.bind fun names taken _ htaken => ?_
    refine (takes_expect (.punct .colon)).bind fun _ colon _ ⟨span, hcolon⟩ => ?_
    subst hcolon
    refine takes_type.bind fun ty taken' _ hty => takes_pure ?_
    exact htaken.append (.cons rfl (hty.1.append .nil))

theorem takes_constDecl : Takes constDecl ls fun _ taken => Phrase taken := by
  refine takes_nextLine fun line => takes_declaredName.bind fun name taken _ hname => ?_
  have hvalue (ty? : Option Ty) (ls : List Lexeme) : Takes (do
      expectEither (.op .equal) (.punct .assign)
      return (⟨name, ty?, ← expression, line⟩ : ConstDecl)) ls fun _ taken => Flat taken := by
    refine (takes_expectEither _ _).bind fun _ _ _ ⟨mark, hmark, hword⟩ => ?_
    subst hmark
    have hinline : mark.token.isInline = true := by rcases hword with h | h <;> rw [h] <;> rfl
    refine takes_expression.bind fun value taken _ hvalue => takes_pure ?_
    exact .cons hinline (hvalue.1.append .nil)
  refine (takes_accept (.punct .colon)).bind fun typed _ _ hcolon => ?_
  obtain ⟨rfl, span, rfl⟩ | ⟨rfl, rfl⟩ := hcolon
  · simp only [if_true, map_eq_pure_bind, bind_assoc, pure_bind]
    refine takes_type.bind fun ty taken' _ hty => (hvalue (some ty) _).mono fun _ taken'' h => ?_
    exact hname.append (.cons rfl (hty.1.append h))
  · simp only [Bool.false_eq_true, if_false, pure_bind]
    exact (hvalue none _).mono fun _ taken' h => hname.append h

section Sections
variable {α : Type} {declaration : Parser α}
  (hdeclaration : ∀ ls, Takes declaration ls fun _ taken => Phrase taken)
include hdeclaration

theorem takes_declarations (starts : List Lexeme → Bool) (bound : Nat) :
    Takes (declarations starts declaration bound) ls fun _ taken => Loose taken := by
  induction bound generalizing ls with
  | zero => exact takes_pure .nil
  | succ bound ih =>
    refine takes_skipSeparators.bind fun _ separators rest hseparators => takes_get ?_
    have hstart := Loose.separators hseparators
    refine takes_ite (fun _ => ?_) fun _ => takes_pure (hstart.append .nil)
    refine (hdeclaration _).bind fun first taken _ hfirst => ?_
    refine ih.bind fun others taken' _ hothers => takes_pure ?_
    exact hstart.append ((Loose.flat hfirst.1).append (hothers.append .nil))

theorem takes_declarationSection (word : Keyword) (hword : (Token.keyword word).isInline = true)
    (starts : List Lexeme → Bool) :
    Takes (declarationSection word starts declaration) ls fun _ taken =>
      Loose taken ∧ taken ≠ [] := by
  refine (takes_expect (.keyword word)).bind fun _ first _ ⟨span, hfirst⟩ => ?_
  subst hfirst
  refine takes_colon.bind fun _ colon _ hcolon => takes_get ?_
  refine (takes_declarations hdeclaration starts _).mono fun _ taken htaken => ?_
  exact ⟨.cons hword ((Loose.flat hcolon).append htaken), List.cons_ne_nil _ _⟩

end Sections

theorem takes_localsWithin (bound : Nat) :
    Takes (localsWithin bound) ls fun _ taken => Loose taken := by
  induction bound generalizing ls with
  | zero => exact takes_pure .nil
  | succ bound ih =>
    refine takes_skipSeparators.bind fun _ separators rest hseparators => takes_get ?_
    have hstart := Loose.separators hseparators
    refine takes_ite (fun _ => ?_) fun _ => takes_ite (fun _ => ?_) fun _ => ?_
    · refine (takes_declarationSection (fun _ => takes_varDecl) .vars rfl _).bind
        fun first taken _ hfirst => ?_
      refine ih.bind fun others taken' _ hothers => takes_pure ?_
      exact hstart.append (hfirst.1.append (hothers.append .nil))
    · refine takes_varDecl.bind fun first taken _ hfirst => ?_
      refine ih.bind fun others taken' _ hothers => takes_pure ?_
      exact hstart.append ((Loose.flat hfirst.1).append (hothers.append .nil))
    · exact takes_pure (hstart.append .nil)

/-! ## Routines -/

theorem takes_returnType (kind : RoutineKind) :
    Takes (returnType kind) ls fun _ taken => Flat taken := by
  cases kind with
  | procedure => exact takes_pure .nil
  | function =>
    refine (takes_expect (.punct .colon)).bind fun _ colon _ ⟨span, hcolon⟩ => ?_
    subst hcolon
    refine takes_type.bind fun ty taken _ hty => takes_pure ?_
    exact .cons rfl (hty.1.append .nil)

theorem takes_routineRest (kind : RoutineKind) (line : Nat) {lexeme : Lexeme}
    (hlexeme : lexeme.token.isInline = true) :
    Takes (routineRest kind line) ls fun routine taken =>
      HasItemRow (.routine routine) (lexeme :: taken) := by
  refine takes_declaredName.bind fun name ident _ hname => ?_
  refine (takes_expect (.punct .lparen)).bind fun _ lparen _ ⟨opening, hlparen⟩ => ?_
  subst hlparen
  refine (takes_closedList fun _ => takes_param).bind fun params taken _ hparams => ?_
  refine (takes_returnType kind).bind fun returnType? result _ hresult => takes_get ?_
  refine (takes_localsWithin _).bind fun locals lines _ hlocals => ?_
  refine (takes_optional .debut).bind fun _ debut _ hdebut => ?_
  refine (takes_block (some kind) _).bind fun body _ _ hbody => ?_
  refine (takes_expect (.keyword .fin)).bind fun _ last _ ⟨fin, hfin⟩ => ?_
  subst hfin
  have hsignature : Flat (ident ++ ⟨.punct .lparen, opening⟩ :: (taken ++ result)) :=
    hname.1.append ((hparams.group opening).append hresult)
  have hopen : Loose debut := by
    cases hdebut with
    | absent => exact .nil
    | written span => exact .flat (.token rfl)
  refine takes_pure ?_
  obtain ⟨row, hrow, rfl⟩ := hbody 0
  have hhead := (Loose.cons hlexeme (.flat hsignature)).append (hlocals.append hopen)
  exact ⟨_, .routine fin hhead hrow, by simp⟩

/-- What an optional part takes. -/
def MaybeRow (found : Option Item) (ls : List Lexeme) : Prop :=
  match found with
  | none => ls = []
  | some item => HasItemRow item ls ∧ ls ≠ []

theorem takes_routine : Takes routine? ls fun found taken =>
    MaybeRow (found.map .routine) taken := by
  refine takes_peek ?_
  have hrest (kind : RoutineKind) (lexeme : Lexeme) (hlexeme : lexeme.token.isInline = true)
      (ls : List Lexeme) : Takes (some <$> routineRest kind lexeme.span.line) ls
        fun found taken => MaybeRow (found.map .routine) (lexeme :: taken) :=
    (takes_routineRest kind lexeme.span.line hlexeme).map fun routine taken hrow =>
      ⟨hrow, List.cons_ne_nil _ _⟩
  split
  · rename_i span hhead
    refine (takes_next_of_head hhead).bind fun _ taken rest htaken => ?_
    subst htaken
    exact hrest .function ⟨.keyword .fonction, span⟩ rfl rest
  · rename_i span hhead
    refine (takes_next_of_head hhead).bind fun _ taken rest htaken => ?_
    subst htaken
    exact hrest .procedure ⟨.keyword .procedure, span⟩ rfl rest
  · exact takes_pure rfl

/-! ## Sections -/

theorem takes_section : Takes section? ls MaybeRow := by
  refine takes_peek ?_
  split
  · refine (takes_declarationSection (fun _ => takes_constDecl) .constantes rfl _).map
      fun constants taken htaken => ?_
    exact ⟨⟨_, .constants htaken.1, by simp⟩, htaken.2⟩
  · refine (takes_declarationSection (fun _ => takes_varDecl) .vars rfl _).map
      fun vars taken htaken => ?_
    exact ⟨⟨_, .vars htaken.1, by simp⟩, htaken.2⟩
  · exact takes_routine.map fun routine taken h => h

theorem takes_sectionsWithin (bound : Nat) : Takes (sectionsWithin bound) ls HasItemsRow := by
  induction bound generalizing ls with
  | zero => exact takes_pure .nil
  | succ bound ih =>
    refine takes_skipSeparators.bind fun _ separators rest hseparators => ?_
    have hstart := Loose.separators hseparators
    refine takes_section.bind fun found taken _ hfound => ?_
    cases found with
    | none =>
      obtain rfl : taken = [] := hfound
      exact takes_pure (.loose hstart .nil)
    | some item =>
      refine ih.bind fun items taken' _ hitems => takes_pure ?_
      rw [List.append_nil]
      exact .loose hstart (.cons hfound.1 hitems)

theorem takes_heading : Takes heading? ls fun _ taken => Loose taken := by
  refine takes_acceptThen (fun span rest => ?_) (takes_pure .nil)
  refine takes_colon.bind fun _ colon _ hcolon => takes_identifier.map fun name taken hname => ?_
  exact .flat (.cons rfl (hcolon.append hname.1))

/-! ## To the end -/

/-- If the parser succeeds on the row, it takes all of it, and the property holds. -/
def TakesAll {α : Type} (p : Parser α) (ls : List Lexeme) (post : α → List Lexeme → Prop) : Prop :=
  ∀ a rest, p ls = .ok (a, rest) → rest = [] ∧ post a ls

section All
variable {α β : Type} {p : Parser α} {post : α → List Lexeme → Prop}
  {post' : β → List Lexeme → Prop}

theorem Takes.bind_all {f : α → Parser β} (hp : Takes p ls post)
    (hf : ∀ a taken rest, ls = taken ++ rest → post a taken →
      TakesAll (f a) rest fun b taken' => post' b (taken ++ taken')) :
    TakesAll (p >>= f) ls post' := by
  intro b rest h
  obtain ⟨a, middle, ha, hb⟩ := exists_of_bind_ok h
  obtain ⟨taken, rfl, hpost⟩ := hp a middle ha
  exact hf a taken middle rfl hpost b rest hb

theorem TakesAll.bind_pure {f : α → β} (hp : TakesAll p ls post)
    (h : ∀ a, post a ls → post' (f a) ls) : TakesAll (do return f (← p)) ls post' := by
  intro b rest hb
  obtain ⟨a, middle, ha, hpure⟩ := exists_of_bind_ok hb
  cases hpure
  obtain ⟨hrest, hpost⟩ := hp a _ ha
  exact ⟨hrest, h a hpost⟩

theorem takesAll_pure {a : α} (hls : ls = []) (h : post a ls) : TakesAll (pure a) ls post := by
  intro b rest hb
  cases hb
  exact ⟨hls, h⟩

theorem takesAll_get {f : List Lexeme → Parser β} (h : TakesAll (f ls) ls post') :
    TakesAll (get >>= f) ls post' := h

theorem takesAll_ite {c : Prop} [Decidable c] {first other : Parser α}
    (hfirst : TakesAll first ls post) (hother : TakesAll other ls post) :
    TakesAll (if c then first else other) ls post := by
  split
  · exact hfirst
  · exact hother

theorem takesAll_throw {e : SyntaxError} : TakesAll (throw e) ls post := by
  intro a rest h
  cases h

end All

/-- A row of at most so many tokens, after some were taken. -/
theorem length_lt {taken rest : List Lexeme} {bound : Nat} (hls : ls = taken ++ rest)
    (hbound : ls.length < bound + 1) :
    rest.length < bound + 1 ∧ (taken ≠ [] → rest.length < bound) := by
  rw [hls, List.length_append] at hbound
  refine ⟨by omega, fun hne => ?_⟩
  have hpos := List.length_pos_iff.2 hne
  omega

theorem takesAll_routinesToEnd (bound : Nat) (hbound : ls.length < bound) :
    TakesAll (routinesToEnd bound) ls HasItemsRow := by
  induction bound generalizing ls with
  | zero => exact absurd hbound (Nat.not_lt_zero _)
  | succ bound ih =>
    refine takes_skipSeparators.bind_all fun _ separators rest hls hseparators => ?_
    have hstart := Loose.separators hseparators
    refine takes_routine.bind_all fun found taken rest' hrest hfound => ?_
    cases found with
    | none =>
      obtain rfl : taken = [] := hfound
      cases rest' with
      | nil =>
        have hend : TakesAll (pure []) [] fun items taken =>
            HasItemsRow items (separators ++ taken) :=
          takesAll_pure rfl (HasItemsRow.loose hstart .nil)
        exact fun items rest h => hend items rest h
      | cons lexeme others => exact takesAll_throw
    | some routine =>
      have hless := (length_lt hrest (length_lt hls hbound).1).2 hfound.2
      exact (ih hless).bind_pure fun items hitems =>
        HasItemsRow.loose hstart (.cons hfound.1 hitems)

theorem takesAll_scriptWithin (started : Bool) (bound : Nat) (hbound : ls.length < bound) :
    TakesAll (scriptWithin started bound) ls HasItemsRow := by
  induction bound generalizing started ls with
  | zero => exact absurd hbound (Nat.not_lt_zero _)
  | succ bound ih =>
    refine takes_skipSeparators.bind_all fun _ separators rest hls hseparators => ?_
    have hstart := Loose.separators hseparators
    have hlength := (length_lt hls hbound).1
    refine takesAll_get ?_
    cases rest with
    | nil =>
      refine takesAll_pure rfl ?_
      exact .loose hstart .nil
    | cons next others =>
      refine takesAll_ite takesAll_throw ?_
      refine takes_section.bind_all fun found taken rest hrest hfound => ?_
      cases found with
      | some item =>
        have hless := (length_lt hrest hlength).2 hfound.2
        exact (ih started hless).bind_pure fun items hitems =>
          HasItemsRow.loose hstart (.cons hfound.1 hitems)
      | none =>
        obtain rfl : taken = [] := hfound
        refine takesAll_ite ?_ ?_
        · refine takes_varDecl.bind_all fun declaration taken rest' hrest' hdeclaration => ?_
          have hless := (length_lt hrest' (hrest ▸ hlength)).2 hdeclaration.2
          have hrow : HasItemRow (.vars [declaration]) taken :=
            ⟨_, .vars (.flat hdeclaration.1), Row.lexemes_level⟩
          exact (ih started hless).bind_pure fun items hitems =>
            HasItemsRow.loose hstart (.loose .nil (.cons hrow hitems))
        · refine (takes_statement none).bind_all fun first taken rest' hrest' hfirst => ?_
          obtain ⟨row, hrow, rfl⟩ := hfirst 0
          have hne : row.lexemes ≠ [] := by simpa [Row.lexemes] using hrow.ne_nil
          have hless := (length_lt hrest' (hrest ▸ hlength)).2 hne
          have hitem : HasItemRow (.statements [first]) row.lexemes :=
            ⟨_, .statements (.cons hrow .nil), by simp⟩
          exact (ih true hless).bind_pure fun items hitems =>
            HasItemsRow.loose hstart (.loose .nil (.cons hitem hitems))

theorem takesAll_mainPart : TakesAll mainPart ls HasItemsRow := by
  refine (takes_accept (.keyword .debut)).bind_all fun found taken rest hls hfound => ?_
  obtain ⟨rfl, span, rfl⟩ | ⟨rfl, rfl⟩ := hfound
  · refine (takes_block none _).bind_all fun statements taken rest' _ hstatements => ?_
    refine (takes_expect (.keyword .fin)).bind_all fun _ last rest'' _ ⟨fin, hfin⟩ => ?_
    subst hfin
    refine takesAll_get ((takesAll_routinesToEnd _ (Nat.lt_succ_self _)).bind_pure ?_)
    intro items hitems
    obtain ⟨row, hrow, rfl⟩ := hstatements 0
    have hmain : HasItemRow (.statements statements) row.lexemes := ⟨row, .statements hrow, rfl⟩
    have hrest : HasItemsRow items (⟨.keyword .fin, fin⟩ :: rest'') :=
      .loose (.flat (.token rfl)) hitems
    exact .loose (.flat (.token rfl)) (.cons hmain hrest)
  · exact takesAll_get (takesAll_scriptWithin false _ (Nat.lt_succ_self _))

theorem takesAll_program : TakesAll program ls fun parsed taken =>
    ∃ row, ProgramRow parsed row ∧ row.lexemes = taken := by
  refine takes_skipSeparators.bind_all fun _ separators _ _ hseparators => ?_
  refine takes_heading.bind_all fun name heading _ _ hheading => takesAll_get ?_
  refine (takes_sectionsWithin _).bind_all fun sections taken _ _ hsections => ?_
  refine takesAll_mainPart.bind_pure fun main hmain => ?_
  have hstart := (Loose.separators hseparators).append hheading
  obtain ⟨row, hrow, hlexemes⟩ := HasItemsRow.loose hstart (hsections.append hmain)
  exact ⟨row, ⟨name, sections ++ main, rfl, hrow⟩, by rw [hlexemes, List.append_assoc]⟩

end Parser
end Pseudocode
