import Pseudocode.Grammar.Layout
import Pseudocode.Proofs.Grammar.Separators

/-! # Programs that differ in their separators

Statements, declarations and layouts read rows that are the same but for their separators like
expressions do: a separator is skipped with all that follow it, or it ends what stands before it,
or it is out of place.

* `matches_statement`, `matches_block`, `matches_program`: the parsers.
* `MatchesIfAny`: parsers of a part that may be missing. -/

namespace Pseudocode
set_option autoImplicit false

namespace Parser
variable {n k b b' : Nat} {α : Type}

/-! ## Statements without blocks -/

theorem matches_assignOrCall (name : String) (line : Nat) :
    Matches n 0 (assignOrCall name line) (assignOrCall name line) := by
  have hassign {m : Nat} : Matches m 0
      (do return Statement.assign name (← expression) line)
      (do return Statement.assign name (← expression) line) :=
    matches_expression.bind fun value _ _ => matches_pure (Statement.assign name value line)
  refine matches_next (.assignOrCall name) (fun _ => ⟨rfl, rfl⟩) (fun _ => ⟨rfl, rfl⟩)
    (matches_unexpected _ _) fun lexeme m _ => ?_
  obtain ⟨token, span⟩ := lexeme
  cases token with
  | punct mark =>
    cases mark with
    | assign => exact hassign
    | lparen =>
      refine (matches_closedList fun _ _ => matches_expression.weaken).bind fun arguments _ _ => ?_
      exact matches_pure (Statement.call name arguments line)
    | _ => exact matches_unexpected _ _
  | op op =>
    cases op with
    | equal => exact hassign
    | _ => exact matches_unexpected _ _
  | _ => exact matches_unexpected _ _

theorem matches_readTargets (line : Nat) :
    Matches n 0 (readTargets line) (readTargets line) := by
  refine (matches_accept rfl).bind fun opened m _ => ?_
  cases opened with
  | true =>
    refine (matches_closedList fun _ _ => matches_identifier.weaken).bind fun targets _ _ => ?_
    cases targets with
    | nil => exact matches_throw _
    | cons first rest => exact matches_pure (Statement.read (first :: rest) line)
  | false =>
    refine (matches_openList fun _ _ => matches_identifier).bind fun targets _ _ => ?_
    exact matches_pure (Statement.read targets line)

theorem matches_writeValues (line : Nat) :
    Matches n 0 (writeValues line) (writeValues line) := by
  refine (matches_accept rfl).bind fun opened m _ => ?_
  cases opened with
  | true =>
    refine (matches_closedList fun _ _ => matches_expression.weaken).bind fun values _ _ => ?_
    exact matches_pure (Statement.write values line)
  | false =>
    refine (matches_openList fun _ _ => matches_expression).bind fun values _ _ => ?_
    exact matches_pure (Statement.write values line)

theorem matches_returnValue (routine : Option RoutineKind) (line : Nat) :
    Matches n 0 (returnValue routine line) (returnValue routine line) := by
  refine matches_peek (fun _ => ⟨rfl, rfl⟩) (fun _ => ⟨rfl, rfl⟩) ?_
    fun lexeme m ls ls' hm hrows hrow => ?_
  · rcases routine with _ | _ | result
    · exact matches_throw _
    · exact matches_pure (Statement.ret none line)
    · exact matches_throw _
  · dsimp only [Option.any_some]
    generalize lexeme.token.startsExpression = hasValue
    rcases routine with _ | _ | result
    · exact matches_throw _ _ _ hrow
    · cases hasValue with
      | true => exact matches_throw _ _ _ hrow
      | false => exact matches_pure (Statement.ret none line) _ _ hrow
    · cases hasValue with
      | true =>
        have hvalue := (matches_expression (n := n)).bind (j := 0) fun value i _ =>
          matches_pure (Statement.ret (some value) line)
        exact hvalue _ _ hrow
      | false => exact matches_throw _ _ _ hrow

/-! ## Blocks -/

theorem matches_blockWithin {statement statement' : Parser Statement}
    (hstatement : ∀ m ≤ n, Matches m 1 statement statement') (closing : List Token) (hb : n < b)
    (hb' : n < b') :
    Matches n 0 (blockWithin statement closing b) (blockWithin statement' closing b') := by
  induction b generalizing b' n with
  | zero => omega
  | succ b ih =>
    obtain ⟨b', rfl⟩ := Nat.exists_eq_succ_of_ne_zero (show b' ≠ 0 by omega)
    refine matches_skip (fun _ => .ok (Nat.zero_le n) .nil) fun lexeme m ls ls' hm hrows hrow => ?_
    have hmore := (hstatement n (Nat.le_refl n)).bind (j := 0) fun first i hi =>
      (ih (fun i' hi' => hstatement i' (by omega)) (show i < b by omega)
        (show i < b' by omega)).bind fun rest _ _ => matches_pure (first :: rest)
    rw [peek_bind, peek_bind]
    dsimp only [List.head?_cons]
    split
    · exact matches_pure [] _ _ hrow
    · exact hmore _ _ hrow

section Blocks
variable {block block' : List Token → Parser (List Statement)}
  (hblock : ∀ m ≤ n, ∀ closing, Matches m 0 (block closing) (block' closing)) (line : Nat)
include hblock

theorem matches_branchRest : Matches n 0 (branchRest block line) (branchRest block' line) := by
  refine matches_expression.bind fun condition m hm => (matches_expect rfl).bind fun _ m' hm' => ?_
  refine (hblock m' (by omega) _).bind fun thenBlock i hi => ?_
  refine (matches_accept rfl).bind fun other i' hi' => ?_
  cases other with
  | true =>
    refine (hblock i' (by omega) _).bind fun elseBlock _ _ => ?_
    refine (matches_expect rfl).bind fun _ _ _ => ?_
    exact matches_pure (Statement.branch condition thenBlock (some elseBlock) line)
  | false =>
    refine (matches_expect rfl).bind fun _ _ _ => ?_
    exact matches_pure (Statement.branch condition thenBlock none line)

theorem matches_whileRest : Matches n 0 (whileRest block line) (whileRest block' line) := by
  refine matches_expression.bind fun condition m hm => (matches_accept rfl).bind fun _ m' hm' => ?_
  refine (hblock m' (by omega) _).bind fun body _ _ => (matches_expect rfl).bind fun _ _ _ => ?_
  exact matches_pure (Statement.whileLoop condition body line)

theorem matches_repeatRest : Matches n 0 (repeatRest block line) (repeatRest block' line) := by
  refine (hblock n (Nat.le_refl n) _).bind fun body _ _ => ?_
  refine (matches_expect rfl).bind fun _ _ _ => matches_expression.bind fun condition _ _ => ?_
  exact matches_pure (Statement.repeatLoop body condition line)

theorem matches_forRest : Matches n 0 (forRest block line) (forRest block' line) := by
  refine matches_identifier.bind fun name m₁ h₁ => ?_
  refine (matches_expectEither rfl rfl).bind fun _ m₂ h₂ => ?_
  refine matches_expression.bind fun first m₃ h₃ => ?_
  refine (matches_expectEither rfl rfl).bind fun _ m₄ h₄ => ?_
  refine matches_expression.bind fun last m₅ h₅ => (matches_accept rfl).bind fun taken m₆ h₆ => ?_
  have hrest (step : Option Expr) {m : Nat} (hm : m ≤ n) :
      Matches m 0
        (do
          let _ ← accept (.keyword .faire)
          let body ← block [.keyword .finPour]
          expect (.keyword .finPour)
          return Statement.forLoop name first last step body line)
        (do
          let _ ← accept (.keyword .faire)
          let body ← block' [.keyword .finPour]
          expect (.keyword .finPour)
          return Statement.forLoop name first last step body line) := by
    refine (matches_accept rfl).bind fun _ i hi => (hblock i (by omega) _).bind fun body _ _ => ?_
    refine (matches_expect rfl).bind fun _ _ _ => ?_
    exact matches_pure (Statement.forLoop name first last step body line)
  cases taken with
  | true => exact (matches_expression.map some).bind fun step i hi => hrest step (by omega)
  | false => exact hrest none (by omega)

end Blocks

/-! ## All statements -/

theorem matches_statementWithin (routine : Option RoutineKind) (hb : n < b) (hb' : n < b') :
    Matches n 1 (statementWithin routine b) (statementWithin routine b') := by
  induction b generalizing b' n with
  | zero => omega
  | succ b ih =>
    obtain ⟨b', rfl⟩ := Nat.exists_eq_succ_of_ne_zero (show b' ≠ 0 by omega)
    intro ls ls' hrows
    cases hrows with
    | nil => exact .error .same
    | @separators n mark mark' ls ls' hm hm' hspan hrows =>
      -- no statement begins with a separator, and the error names the one that stands there
      have herror {mark : Lexeme} (hm : mark.token.isSeparator = true) (ls : List Lexeme)
          (b : Nat) : statementWithin routine (b + 1) (mark :: ls) =
            .error ⟨.unexpectedToken .statement mark.token, mark.span.line⟩ :=
        Lexeme.of_separator hm (fun _ => rfl) fun _ => rfl
      rw [herror hm, herror hm', hspan]
      exact .error (.separator hm hm')
    | @token m lexeme ls ls' hlexeme hrows =>
      have hblock : ∀ i ≤ m, ∀ closing, Matches i 0
          (blockWithin (statementWithin routine b) closing b)
          (blockWithin (statementWithin routine b') closing b') := fun i hi closing =>
        matches_blockWithin (fun i' hi' => ih (by omega) (by omega)) closing (by omega) (by omega)
      have hfirst : m + 1 ≤ m + 1 := Nat.le_refl _
      obtain ⟨token, span⟩ := lexeme
      cases token with
      | ident name =>
        exact (matches_assignOrCall name span.line ls ls' hrows).after hfirst
      | keyword word =>
        cases word with
        | lire => exact (matches_readTargets span.line ls ls' hrows).after hfirst
        | ecrire => exact (matches_writeValues span.line ls ls' hrows).after hfirst
        | si => exact (matches_branchRest hblock span.line ls ls' hrows).after hfirst
        | pour => exact (matches_forRest hblock span.line ls ls' hrows).after hfirst
        | tantQue => exact (matches_whileRest hblock span.line ls ls' hrows).after hfirst
        | repeter => exact (matches_repeatRest hblock span.line ls ls' hrows).after hfirst
        | retourner => exact (matches_returnValue routine span.line ls ls' hrows).after hfirst
        | _ => exact .error .same
      | _ => exact .error .same

theorem matches_statement (routine : Option RoutineKind) :
    Matches n 1 (statement routine) (statement routine) :=
  matches_get fun _ _ hrows => matches_statementWithin routine
    hrows.bounds.1 hrows.bounds.2

theorem matches_block (routine : Option RoutineKind) (closing : List Token) :
    Matches n 0 (block routine closing) (block routine closing) :=
  matches_get fun _ _ hrows => matches_blockWithin (fun _ _ => matches_statement routine) closing
    hrows.bounds.1 hrows.bounds.2

/-! ## Looking ahead -/

section Ahead
variable {ls ls' : List Lexeme}

theorem startsVarDecl_same (h : SameRows n ls ls') : startsVarDecl ls = startsVarDecl ls' := by
  have hmark {mark : Lexeme} (hm : mark.token.isSeparator = true) (ls : List Lexeme) :
      startsVarDecl (mark :: ls) = false :=
    Lexeme.of_separator hm (fun _ => rfl) fun _ => rfl
  have hsecond {mark : Lexeme} (hm : mark.token.isSeparator = true) (name : String) (span : Span)
      (ls : List Lexeme) : startsVarDecl (⟨.ident name, span⟩ :: mark :: ls) = false :=
    Lexeme.of_separator hm (fun _ => rfl) fun _ => rfl
  cases h with
  | nil => rfl
  | separators hm hm' => rw [hmark hm, hmark hm']
  | @token m lexeme ls ls' hlexeme hrows =>
    obtain ⟨token, span⟩ := lexeme
    cases token with
    | ident name =>
      cases hrows with
      | nil => rfl
      | separators hm hm' => rw [hsecond hm, hsecond hm']
      | @token m lexeme ls ls' hlexeme hrows =>
        obtain ⟨token, span⟩ := lexeme
        cases token with
        | punct mark => cases mark <;> rfl
        | _ => rfl
    | _ => rfl

theorem startsConstDecl_mark {mark : Lexeme} (h : mark.token.isSeparator = true)
    (name : String) (span : Span) (ls : List Lexeme) :
    startsConstDecl (mark :: ls) = false ∧
      startsConstDecl (⟨.ident name, span⟩ :: mark :: ls) = false :=
  Lexeme.of_separator h (fun _ => ⟨rfl, rfl⟩) fun _ => ⟨rfl, rfl⟩

/-- The type of a constant is looked for behind its colon, and a mark behind the type. -/
theorem startsConstDecl_typed (h : SameRows n ls ls') (name : String) (span span' : Span) :
    startsConstDecl (⟨.ident name, span⟩ :: ⟨.punct .colon, span'⟩ :: ls) =
      startsConstDecl (⟨.ident name, span⟩ :: ⟨.punct .colon, span'⟩ :: ls') := by
  have hmark {mark : Lexeme} (hm : mark.token.isSeparator = true) (ls : List Lexeme) :
      startsConstDecl (⟨.ident name, span⟩ :: ⟨.punct .colon, span'⟩ :: mark :: ls) = false :=
    Lexeme.of_separator hm (fun _ => rfl) fun _ => rfl
  have hvalue {mark : Lexeme} (hm : mark.token.isSeparator = true) :
      givesValue mark.token = false :=
    Lexeme.of_separator hm (fun _ => rfl) fun _ => rfl
  cases h with
  | nil => rfl
  | separators hm hm' => rw [hmark hm, hmark hm']
  | @token m lexeme ls ls' hlexeme hrows =>
    obtain ⟨token, span⟩ := lexeme
    cases token with
    | type ty =>
      cases hrows with
      | nil => rfl
      | token => rfl
      | separators hm hm' => exact (hvalue hm).trans (hvalue hm').symm
    | _ => rfl

theorem startsConstDecl_same (h : SameRows n ls ls') :
    startsConstDecl ls = startsConstDecl ls' := by
  cases h with
  | nil => rfl
  | separators hm hm' =>
    rw [(startsConstDecl_mark hm "" ⟨1, 1⟩ _).1, (startsConstDecl_mark hm' "" ⟨1, 1⟩ _).1]
  | @token m lexeme ls ls' hlexeme hrows =>
    obtain ⟨token, span⟩ := lexeme
    cases token with
    | ident name =>
      cases hrows with
      | nil => rfl
      | separators hm hm' =>
        rw [(startsConstDecl_mark hm name span _).2, (startsConstDecl_mark hm' name span _).2]
      | @token m lexeme ls ls' hlexeme hrows =>
        obtain ⟨token, span'⟩ := lexeme
        cases token with
        | punct mark =>
          cases mark with
          | colon => exact startsConstDecl_typed hrows name span span'
          | _ => rfl
        | _ => rfl
    | _ => rfl

end Ahead

/-! ## Variables and constants -/

theorem matches_type : Matches n 1 type type := by
  refine matches_next .type (fun _ => ⟨rfl, rfl⟩) (fun _ => ⟨rfl, rfl⟩) (matches_unexpected _ _)
    fun lexeme m _ => ?_
  obtain ⟨token, span⟩ := lexeme
  cases token with
  | type ty => exact matches_pure ty
  | _ => exact matches_unexpected _ _

theorem matches_declaredName : Matches n 1 declaredName declaredName := by
  refine matches_nextLine fun line => matches_identifier.bind fun name m _ => ?_
  cases hbuiltin : isBuiltin name with
  | true => exact matches_throw _
  | false => exact matches_pure name

theorem matches_varDecl : Matches n 1 varDecl varDecl := by
  have hnames {m : Nat} := matches_openList (n := m) fun _ _ => matches_declaredName
  have hrest (line : Nat) {m : Nat} : Matches m 1
      (do
        let names ← openList declaredName
        expect (.punct .colon)
        return (⟨names, ← type, line⟩ : VarDecl))
      (do
        let names ← openList declaredName
        expect (.punct .colon)
        return (⟨names, ← type, line⟩ : VarDecl)) := by
    refine hnames.bind fun names _ _ => (matches_expect rfl).bind fun _ _ _ => ?_
    exact matches_type.bind fun ty _ _ => matches_pure (⟨names, ty, line⟩ : VarDecl)
  refine matches_nextLine fun line => ?_
  refine matches_peek (fun _ => ⟨rfl, rfl⟩) (fun _ => ⟨rfl, rfl⟩) (hrest line)
    fun lexeme m ls ls' hm hrows hrow => ?_
  have hother := hrest line _ _ hrow
  obtain ⟨token, span⟩ := lexeme
  cases token with
  | type ty =>
    have hcolon : Matches m 0 (accept (.punct .colon)) (accept (.punct .colon)) :=
      matches_accept rfl
    have htyped := hcolon.bind (j := 0) fun _ i _ =>
      (hnames (m := i)).bind fun names _ _ => matches_pure (⟨names, ty, line⟩ : VarDecl)
    exact (htyped ls ls' hrows).after (i := 1) (by omega)
  | _ => exact hother

theorem matches_constDecl : Matches n 1 constDecl constDecl := by
  refine matches_nextLine fun line => matches_declaredName.bind fun name m hm => ?_
  refine (matches_accept rfl).bind fun taken m' hm' => ?_
  have hvalue (ty? : Option Ty) {m : Nat} : Matches m 0
      (do
        expectEither (.op .equal) (.punct .assign)
        return (⟨name, ty?, ← expression, line⟩ : ConstDecl))
      (do
        expectEither (.op .equal) (.punct .assign)
        return (⟨name, ty?, ← expression, line⟩ : ConstDecl)) := by
    refine (matches_expectEither rfl rfl).bind fun _ _ _ => ?_
    exact matches_expression.bind fun value _ _ =>
      matches_pure (⟨name, ty?, value, line⟩ : ConstDecl)
  cases taken with
  | true => exact (matches_type.map some).bind fun ty? _ _ => hvalue ty?
  | false => exact hvalue none

section Sections
variable {declaration : Parser α} (hdeclaration : ∀ m, Matches m 1 declaration declaration)
  {starts : List Lexeme → Bool}
  (hstarts : ∀ m ls ls', SameRows m ls ls' → starts ls = starts ls')
include hdeclaration hstarts

theorem matches_declarations (hb : n < b) (hb' : n < b') :
    Matches n 0 (declarations starts declaration b) (declarations starts declaration b') := by
  induction b generalizing b' n with
  | zero => omega
  | succ b ih =>
    obtain ⟨b', rfl⟩ := Nat.exists_eq_succ_of_ne_zero (show b' ≠ 0 by omega)
    refine matches_skipSeparators.bind fun _ m hm => matches_get fun ls ls' hrows => ?_
    rw [hstarts m ls ls' hrows]
    split
    · refine (hdeclaration m).bind fun first i hi => ?_
      exact (ih (show i < b by omega) (show i < b' by omega)).bind fun rest _ _ =>
        matches_pure (first :: rest)
    · exact matches_pure []

theorem matches_declarationSection (word : Keyword) :
    Matches n 1 (declarationSection word starts declaration)
      (declarationSection word starts declaration) := by
  refine (matches_expect rfl).bind fun _ _ _ => (matches_accept rfl).bind fun _ m _ => ?_
  exact matches_get fun _ _ hrows => matches_declarations hdeclaration hstarts
    hrows.bounds.1 hrows.bounds.2

end Sections

theorem matches_varSection : Matches n 1 varSection varSection :=
  matches_declarationSection (fun _ => matches_varDecl) (fun _ _ _ => startsVarDecl_same) .vars

theorem matches_constSection : Matches n 1 constSection constSection :=
  matches_declarationSection (fun _ => matches_constDecl) (fun _ _ _ => startsConstDecl_same)
    .constantes

/-! ## Routines -/

theorem matches_param : Matches n 1 param param := by
  refine matches_declaredName.bind fun name _ _ => (matches_expect rfl).bind fun _ _ _ => ?_
  exact matches_type.bind fun ty _ _ => matches_pure (⟨name, ty⟩ : Param)

theorem matches_localsWithin (hb : n < b) (hb' : n < b') :
    Matches n 0 (localsWithin b) (localsWithin b') := by
  induction b generalizing b' n with
  | zero => omega
  | succ b ih =>
    obtain ⟨b', rfl⟩ := Nat.exists_eq_succ_of_ne_zero (show b' ≠ 0 by omega)
    refine matches_skipSeparators.bind fun _ m hm => matches_get fun ls ls' hrows => ?_
    rw [startsVarDecl_same hrows]
    simp only [hrows.next_iff (show (Token.keyword .vars).isSeparator = false from rfl)]
    split
    · refine matches_varSection.bind fun first i hi => ?_
      exact (ih (show i < b by omega) (show i < b' by omega)).bind fun rest _ _ =>
        matches_pure (first ++ rest)
    · split
      · refine matches_varDecl.bind fun first i hi => ?_
        exact (ih (show i < b by omega) (show i < b' by omega)).bind fun rest _ _ =>
          matches_pure (first :: rest)
      · exact matches_pure []

theorem matches_returnType (kind : RoutineKind) :
    Matches n 0 (returnType kind) (returnType kind) := by
  cases kind with
  | procedure => exact matches_pure none
  | function =>
    refine (matches_expect rfl).bind fun _ _ _ => matches_type.bind fun ty _ _ => ?_
    exact matches_pure (some ty)

theorem matches_routineRest (kind : RoutineKind) (line : Nat) :
    Matches n 0 (routineRest kind line) (routineRest kind line) := by
  refine matches_declaredName.bind fun name _ _ => (matches_expect rfl).bind fun _ _ _ => ?_
  refine (matches_closedList fun _ _ => matches_param.weaken).bind fun params _ _ => ?_
  refine (matches_returnType kind).bind fun returnType? m _ => matches_get fun ls ls' hrows => ?_
  have hlocals : Matches m 0 (localsWithin (ls.length + 1)) (localsWithin (ls'.length + 1)) :=
    matches_localsWithin hrows.bounds.1 hrows.bounds.2
  refine hlocals.bind fun locals _ _ => (matches_accept rfl).bind fun _ _ _ => ?_
  refine (matches_block (some kind) _).bind fun body _ _ => ?_
  refine (matches_expect rfl).bind fun _ _ _ => ?_
  exact matches_pure (⟨kind, name, params, returnType?, locals, body, line⟩ : Routine)

/-- An optional part on two rows: it is there and takes a token at least, or it is on neither of
them and both rows stay. -/
inductive MatchedIfAny (n : Nat) (ls ls' : List Lexeme) :
    Except SyntaxError (Option α × List Lexeme) → Except SyntaxError (Option α × List Lexeme) →
      Prop where
  | found {a : α} {m : Nat} {rest rest' : List Lexeme} : m + 1 ≤ n → SameRows m rest rest' →
      MatchedIfAny n ls ls' (.ok (some a, rest)) (.ok (some a, rest'))
  | missing : MatchedIfAny n ls ls' (.ok (none, ls)) (.ok (none, ls'))
  | error {e e' : SyntaxError} : e.Alike e' → MatchedIfAny n ls ls' (.error e) (.error e')

def MatchesIfAny (n : Nat) (p p' : Parser (Option α)) : Prop :=
  ∀ ls ls', SameRows n ls ls' → MatchedIfAny n ls ls' (p ls) (p' ls')

section IfAny
variable {β : Type} {ls ls' : List Lexeme}

theorem Matches.ifAny {m : Nat} {rest rest' : List Lexeme} {p p' : Parser α}
    (hp : Matches m k p p') (hm : m + 1 ≤ n + k) (hrest : SameRows m rest rest') (f : α → β) :
    MatchedIfAny n ls ls' (((some ∘ f) <$> p) rest) (((some ∘ f) <$> p') rest') := by
  have h := hp rest rest' hrest
  rw [map_eq_pure_bind, map_eq_pure_bind]
  change MatchedIfAny n ls ls' (p rest >>= fun r => .ok (some (f r.1), r.2))
    (p' rest' >>= fun r => .ok (some (f r.1), r.2))
  generalize p rest = result at h ⊢
  generalize p' rest' = result' at h ⊢
  cases h with
  | error halike => exact .error halike
  | ok hm' hleft => exact .found (by omega) hleft

theorem MatchesIfAny.map {p p' : Parser (Option α)} (hp : MatchesIfAny n p p') (f : α → β) :
    MatchesIfAny n (Option.map f <$> p) (Option.map f <$> p') := by
  intro ls ls' hrows
  have h := hp ls ls' hrows
  rw [map_eq_pure_bind, map_eq_pure_bind]
  change MatchedIfAny n ls ls' (p ls >>= fun r => .ok (Option.map f r.1, r.2))
    (p' ls' >>= fun r => .ok (Option.map f r.1, r.2))
  generalize p ls = result at h ⊢
  generalize p' ls' = result' at h ⊢
  cases h with
  | error halike => exact .error halike
  | missing => exact .missing
  | found hm hrest => exact .found hm hrest

theorem MatchesIfAny.bind {p p' : Parser (Option α)} {f f' : Option α → Parser β}
    (hp : MatchesIfAny n p p') (hrows : SameRows n ls ls')
    (hfound : ∀ a m, m + 1 ≤ n → Matches m 0 (f (some a)) (f' (some a)))
    (hmissing : Matched n 0 (f none ls) (f' none ls')) :
    Matched n 0 ((p >>= f) ls) ((p' >>= f') ls') := by
  have h := hp ls ls' hrows
  change Matched n 0 (p ls >>= fun r => f r.1 r.2) (p' ls' >>= fun r => f' r.1 r.2)
  generalize p ls = result at h ⊢
  generalize p' ls' = result' at h ⊢
  cases h with
  | error halike => exact .error halike
  | missing => exact hmissing
  | @found a m rest rest' hm hrest =>
    exact (hfound a m hm rest rest' hrest).after (i := 1) hm

end IfAny

theorem matches_routine : MatchesIfAny n routine? routine? := by
  intro ls ls' hrows
  have hnone {mark : Lexeme} (hm : mark.token.isSeparator = true) (ls : List Lexeme) :
      routine? (mark :: ls) = .ok (none, mark :: ls) :=
    Lexeme.of_separator hm (fun _ => rfl) fun _ => rfl
  cases hrows with
  | nil => exact .missing
  | separators hm hm' =>
    rw [hnone hm, hnone hm']
    exact .missing
  | @token m lexeme ls ls' hlexeme hrows =>
    obtain ⟨token, span⟩ := lexeme
    cases token with
    | keyword word =>
      cases word with
      | fonction => exact (matches_routineRest .function span.line).ifAny (Nat.le_refl _) hrows id
      | procedure => exact (matches_routineRest .procedure span.line).ifAny (Nat.le_refl _) hrows id
      | _ => exact .missing
    | _ => exact .missing

/-! ## Layouts -/

theorem matches_section : MatchesIfAny n section? section? := by
  intro ls ls' hrows
  have hroutine := (matches_routine (n := n)).map Item.routine ls ls' hrows
  have hother {mark : Lexeme} (hm : mark.token.isSeparator = true)
      (ls : List Lexeme) : section? (mark :: ls) =
        (Option.map Item.routine <$> routine?) (mark :: ls) :=
    Lexeme.of_separator hm (fun _ => rfl) fun _ => rfl
  cases hrows with
  | nil => exact hroutine
  | separators hm hm' =>
    rw [hother hm, hother hm']
    exact hroutine
  | @token m lexeme ls ls' hlexeme hrows =>
    have hrow : SameRows (m + 1) (lexeme :: ls) (lexeme :: ls') := .token hlexeme hrows
    obtain ⟨token, span⟩ := lexeme
    cases token with
    | keyword word =>
      cases word with
      | constantes => exact matches_constSection.ifAny (Nat.le_refl _) hrow Item.constants
      | vars => exact matches_varSection.ifAny (Nat.le_refl _) hrow Item.vars
      | _ => exact hroutine
    | _ => exact hroutine

theorem matches_sectionsWithin (hb : n < b) (hb' : n < b') :
    Matches n 0 (sectionsWithin b) (sectionsWithin b') := by
  induction b generalizing b' n with
  | zero => omega
  | succ b ih =>
    obtain ⟨b', rfl⟩ := Nat.exists_eq_succ_of_ne_zero (show b' ≠ 0 by omega)
    refine matches_skipSeparators.bind fun _ m hm ls ls' hrows => ?_
    refine matches_section.bind hrows (fun item i hi => ?_) (matches_pure [] ls ls' hrows)
    exact (ih (show i < b by omega) (show i < b' by omega)).bind fun items _ _ =>
      matches_pure (item :: items)

theorem matches_routinesToEnd (hb : n < b) (hb' : n < b') :
    Matches n 0 (routinesToEnd b) (routinesToEnd b') := by
  induction b generalizing b' n with
  | zero => omega
  | succ b ih =>
    obtain ⟨b', rfl⟩ := Nat.exists_eq_succ_of_ne_zero (show b' ≠ 0 by omega)
    refine matches_skip (fun _ => .ok (Nat.zero_le n) .nil) fun lexeme m ls ls' hm hrows hrow => ?_
    -- what follows the main block and is no routine is the same token in both rows
    refine matches_routine.bind hrow (fun routine i hi => ?_) (.error .same)
    exact (ih (show i < b by omega) (show i < b' by omega)).bind fun items _ _ =>
      matches_pure (Item.routine routine :: items)

theorem startsDeclaration_same {ls ls' : List Lexeme} {lexeme : Lexeme}
    (h : SameRows n (lexeme :: ls) (lexeme :: ls')) :
    startsDeclaration (lexeme :: ls) = startsDeclaration (lexeme :: ls') := by
  have hvar := startsVarDecl_same h
  obtain ⟨token, span⟩ := lexeme
  cases token with
  | keyword word => cases word <;> rfl
  | _ => exact hvar

theorem matches_scriptWithin (started : Bool) (hb : n < b) (hb' : n < b') :
    Matches n 0 (scriptWithin started b) (scriptWithin started b') := by
  induction b generalizing b' n started with
  | zero => omega
  | succ b ih =>
    obtain ⟨b', rfl⟩ := Nat.exists_eq_succ_of_ne_zero (show b' ≠ 0 by omega)
    refine matches_skip (fun _ => .ok (Nat.zero_le n) .nil) fun lexeme m ls ls' hm hrows hrow => ?_
    have hrest (started : Bool) (item : Item) {i : Nat} (hi : i + 1 ≤ n) :
        Matches i 0 (do return item :: (← scriptWithin started b))
          (do return item :: (← scriptWithin started b')) :=
      (ih started (show i < b by omega) (show i < b' by omega)).bind fun items _ _ =>
        matches_pure (item :: items)
    have hstarts := startsDeclaration_same hrow
    rw [get_bind, get_bind]
    dsimp only
    rw [hstarts]
    split
    · exact .error .same
    · refine matches_section.bind hrow (fun item i hi => hrest started item hi) ?_
      dsimp only
      split
      · have hline := matches_varDecl (n := n).bind (j := 0) fun declaration i hi =>
          hrest started (.vars [declaration]) hi
        exact hline _ _ hrow
      · have hline := (matches_statement (n := n) none).bind (j := 0) fun first i hi =>
          hrest true (.statements [first]) hi
        exact hline _ _ hrow

theorem matches_heading : Matches n 0 heading? heading? := by
  refine (matches_accept rfl).bind fun taken _ _ => ?_
  cases taken with
  | true => exact (matches_accept rfl).bind fun _ _ _ => (matches_identifier.map some).weaken
  | false => exact matches_pure none

theorem matches_mainPart : Matches n 0 mainPart mainPart := by
  refine (matches_accept rfl).bind fun taken m _ => ?_
  cases taken with
  | true =>
    refine (matches_block none _).bind fun statements _ _ => ?_
    refine (matches_expect rfl).bind fun _ m _ => ?_
    refine matches_get fun ls ls' hrows => ?_
    have hroutines : Matches m 0 (routinesToEnd (ls.length + 1)) (routinesToEnd (ls'.length + 1)) :=
      matches_routinesToEnd hrows.bounds.1 hrows.bounds.2
    exact hroutines.bind fun items _ _ => matches_pure (Item.statements statements :: items)
  | false =>
    exact matches_get fun _ _ hrows => matches_scriptWithin false
      hrows.bounds.1 hrows.bounds.2

theorem matches_program : Matches n 0 program program := by
  refine matches_skipSeparators.bind fun _ _ _ => matches_heading.bind fun name m _ => ?_
  refine matches_get fun ls ls' hrows => ?_
  have hsections : Matches m 0 (sectionsWithin (ls.length + 1)) (sectionsWithin (ls'.length + 1)) :=
    matches_sectionsWithin hrows.bounds.1 hrows.bounds.2
  refine hsections.bind fun sections _ _ => matches_mainPart.bind fun main _ _ => ?_
  exact matches_pure (Program.ofItems name (sections ++ main))

end Parser
end Pseudocode
