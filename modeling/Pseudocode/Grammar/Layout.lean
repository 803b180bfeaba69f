import Pseudocode.Grammar.Declaration
import Pseudocode.Grammar.Nesting

/-! Whole programs. After an optional heading and declaration sections, a program has its statements
between `DEBUT` and `FIN`, or it is a script: statements up to the end, before the first of which
declarations may still stand. -/

namespace Pseudocode
set_option autoImplicit false

/-! ## Items -/

/-- A part of a program. -/
inductive Item where
  | constants (declarations : List ConstDecl)
  | vars (declarations : List VarDecl)
  | routine (routine : Routine)
  | statements (statements : List Statement)

/-- The program that is made of the given parts, in their order. -/
def Program.ofItems (name : Option String) (items : List Item) : Program where
  name := name
  constants := items.flatMap fun | .constants ds => ds | _ => []
  declarations := items.flatMap fun | .vars ds => ds | _ => []
  routines := items.flatMap fun | .routine r => [r] | _ => []
  statements := items.flatMap fun | .statements ss => ss | _ => []

namespace Parser

/-- A declaration section or a routine, if one follows. -/
def section? : Parser (Option Item) := do
  match (← peek?).map Lexeme.token with
  | some (.keyword .constantes) => (some ∘ .constants) <$> constSection
  | some (.keyword .vars) => (some ∘ .vars) <$> varSection
  | _ => Option.map .routine <$> routine?

/-- All sections and routines that follow. -/
def sectionsWithin : Nat → Parser (List Item)
  | 0 => return []
  | bound + 1 => do
    skipSeparators
    match ← section? with
    | some item => return item :: (← sectionsWithin bound)
    | none => return []

/-! ## The two layouts -/

/-- The routines after the end of the main block, which nothing else may follow. -/
def routinesToEnd : Nat → Parser (List Item)
  | 0 => return []
  | bound + 1 => do
    skipSeparators
    match ← routine? with
    | some routine => return .routine routine :: (← routinesToEnd bound)
    | none => match ← peek? with
      | some ⟨token, span⟩ => throw ⟨.trailingToken token, span.line⟩
      | none => return []

/-- Whether a declaration follows that a script may only have before its first statement. -/
def startsDeclaration (ls : List Lexeme) : Bool :=
  match ls with
  | ⟨.keyword .constantes, _⟩ :: _ | ⟨.keyword .vars, _⟩ :: _ => true
  | _ => startsVarDecl ls

/-- The items of a script up to the end; `started` tells whether a statement came before. -/
def scriptWithin (started : Bool) : Nat → Parser (List Item)
  | 0 => return []
  | bound + 1 => do
    skipSeparators
    let ls ← get
    match ls with
    | [] => return []
    | next :: _ =>
      if startsDeclaration ls && started then throw ⟨.lateDeclaration, next.span.line⟩
      else match ← section? with
        | some item => return item :: (← scriptWithin started bound)
        | none =>
          if startsDeclaration ls then
            let declaration ← varDecl
            return .vars [declaration] :: (← scriptWithin started bound)
          else
            let first ← statement none
            return .statements [first] :: (← scriptWithin true bound)

/-- The heading of a program, if there is one. -/
def heading? : Parser (Option String) := do
  if ← accept (.keyword .algorithme) then
    let _ ← accept (.punct .colon)
    some <$> identifier
  else return none

/-- The part of a program after its first sections: a main block, or a script. -/
def mainPart : Parser (List Item) := do
  if ← accept (.keyword .debut) then
    let statements ← block none [.keyword .fin]
    expect (.keyword .fin)
    return .statements statements :: (← routinesToEnd ((← get).length + 1))
  else scriptWithin false ((← get).length + 1)

/-- A program up to the end of the input. -/
def program : Parser Program := do
  skipSeparators
  let name ← heading?
  let sections ← sectionsWithin ((← get).length + 1)
  let main ← mainPart
  return .ofItems name (sections ++ main)

end Parser

/-! ## Parsing -/

/-- The last token that separates nothing. -/
def lastMeaningful? (lexemes : List Lexeme) : Option Lexeme :=
  lexemes.reverse.find? fun lexeme => !lexeme.token.isSeparator

/-- Gives the end of the input its line. -/
def SyntaxError.endingOn (line : Nat) (error : SyntaxError) : SyntaxError :=
  match error with
  | ⟨.unexpectedEnd expected, 0⟩ => ⟨.unexpectedEnd expected, line⟩
  | _ => error

/-- The program that a row of tokens is, or its first grammatical error. The depth is checked before
anything else; an input that ends too early ends on the line of its last token. -/
def parse (lexemes : List Lexeme) : Except SyntaxError Program :=
  match lastMeaningful? lexemes with
  | none => .error ⟨.emptyProgram, 0⟩
  | some last => do
    checkNesting lexemes
    match Parser.program lexemes with
    | .ok (program, _) => .ok program
    | .error error => .error (error.endingOn last.span.line)

end Pseudocode
