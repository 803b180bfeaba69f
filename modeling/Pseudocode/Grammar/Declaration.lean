import Pseudocode.Grammar.Statement

/-! Declarations of variables, constants and routines. -/

namespace Pseudocode.Parser
set_option autoImplicit false

/-! ## Looking ahead -/

/-- Whether a declaration of variables follows: a type, or a name before a comma or a colon. No
statement starts like that. -/
def startsVarDecl : List Lexeme → Bool
  | ⟨.type _, _⟩ :: _ => true
  | ⟨.ident _, _⟩ :: ⟨.punct .comma, _⟩ :: _ => true
  | ⟨.ident _, _⟩ :: ⟨.punct .colon, _⟩ :: _ => true
  | _ => false

/-- Whether a token may stand between a constant and its value. -/
def givesValue : Token → Bool
  | .op .equal | .punct .assign => true
  | _ => false

/-- Whether a declaration of a constant follows: a name, perhaps its type, and a mark that gives its
value. -/
def startsConstDecl : List Lexeme → Bool
  | ⟨.ident _, _⟩ :: ⟨.punct .colon, _⟩ :: ⟨.type _, _⟩ :: mark :: _ => givesValue mark.token
  | ⟨.ident _, _⟩ :: mark :: _ => givesValue mark.token
  | _ => false

/-! ## Variables and constants -/

/-- One line of a declaration of variables, with the type at its end or at its start. -/
def varDecl : Parser VarDecl := do
  let line ← nextLine
  match ← peek? with
  | some ⟨.type ty, _⟩ =>
    let _ ← next?
    let _ ← accept (.punct .colon)
    return ⟨← openList declaredName, ty, line⟩
  | _ =>
    let names ← openList declaredName
    expect (.punct .colon)
    return ⟨names, ← type, line⟩

/-- The lines of a declaration section, as long as `starts` sees one. -/
def declarations {α : Type} (starts : List Lexeme → Bool) (declaration : Parser α) :
    Nat → Parser (List α)
  | 0 => return []
  | bound + 1 => do
    skipSeparators
    if starts (← get) then
      let first ← declaration
      return first :: (← declarations starts declaration bound)
    else return []

/-- A section: its keyword, perhaps a colon, and its lines. -/
def declarationSection {α : Type} (word : Keyword) (starts : List Lexeme → Bool)
    (declaration : Parser α) : Parser (List α) := do
  expect (.keyword word)
  let _ ← accept (.punct .colon)
  declarations starts declaration ((← get).length + 1)

/-- A section of variables. -/
def varSection : Parser (List VarDecl) := declarationSection .vars startsVarDecl varDecl

/-- One line of a declaration of constants. -/
def constDecl : Parser ConstDecl := do
  let line ← nextLine
  let name ← declaredName
  let ty? ← if ← accept (.punct .colon) then some <$> type else pure none
  expectEither (.op .equal) (.punct .assign)
  return ⟨name, ty?, ← expression, line⟩

/-- A section of constants. -/
def constSection : Parser (List ConstDecl) :=
  declarationSection .constantes startsConstDecl constDecl

/-! ## Routines -/

/-- A parameter with its type. -/
def param : Parser Param := do
  let name ← declaredName
  expect (.punct .colon)
  return ⟨name, ← type⟩

/-- The local variables of a routine, in sections or in single lines. -/
def localsWithin : Nat → Parser (List VarDecl)
  | 0 => return []
  | bound + 1 => do
    skipSeparators
    let ls ← get
    if ls.head?.map Lexeme.token = some (.keyword .vars) then
      let first ← varSection
      return first ++ (← localsWithin bound)
    else if startsVarDecl ls then
      let first ← varDecl
      return first :: (← localsWithin bound)
    else return []

/-- The type of the value of a function, after the parameters; a procedure has none. -/
def returnType : RoutineKind → Parser (Option Ty)
  | .procedure => return none
  | .function => do
    expect (.punct .colon)
    return some (← type)

/-- A routine after the keyword that starts it. -/
def routineRest (kind : RoutineKind) (line : Nat) : Parser Routine := do
  let name ← declaredName
  expect (.punct .lparen)
  let params ← closedList param
  let returnType? ← returnType kind
  let locals ← localsWithin ((← get).length + 1)
  let _ ← accept (.keyword .debut)
  let body ← block (some kind) [.keyword .fin]
  expect (.keyword .fin)
  return ⟨kind, name, params, returnType?, locals, body, line⟩

/-- A routine, if one follows. -/
def routine? : Parser (Option Routine) := do
  match ← peek? with
  | some ⟨.keyword .fonction, span⟩ => do let _ ← next?; some <$> routineRest .function span.line
  | some ⟨.keyword .procedure, span⟩ => do let _ ← next?; some <$> routineRest .procedure span.line
  | _ => return none

end Pseudocode.Parser
