import Pseudocode.Grammar.Expression

/-! Statements and blocks. The first token of a statement tells what it is. As for expressions, the
number that the parsers carry bounds how deep they go, and one more than the number of tokens is
always enough. -/

namespace Pseudocode.Parser
set_option autoImplicit false

/-! ## Statements without blocks -/

/-- What follows a name at the start of a statement: a value to assign, or arguments. -/
def assignOrCall (name : String) (line : Nat) : Parser Statement := do
  match ← next? with
  | some ⟨.punct .assign, _⟩ | some ⟨.op .equal, _⟩ => return .assign name (← expression) line
  | some ⟨.punct .lparen, _⟩ => return .call name (← closedList expression) line
  | found => unexpected (.assignOrCall name) found

/-- The targets of `LIRE`, with or without parentheses. There is at least one. -/
def readTargets (line : Nat) : Parser Statement := do
  if ← accept (.punct .lparen) then
    match ← closedList identifier with
    | [] => throw ⟨.unexpectedToken .identifier (.punct .rparen), line⟩
    | targets => return .read targets line
  else return .read (← openList identifier) line

/-- The values of `ECRIRE`, with or without parentheses. Only in parentheses there may be none. -/
def writeValues (line : Nat) : Parser Statement := do
  if ← accept (.punct .lparen) then return .write (← closedList expression) line
  else return .write (← openList expression) line

/-- What follows `RETOURNER`: a value in a function, none in a procedure. -/
def returnValue (routine : Option RoutineKind) (line : Nat) : Parser Statement := do
  let next ← peek?
  let hasValue := next.any (·.token.startsExpression)
  match routine, hasValue with
  | some .function, true => return .ret (some (← expression)) line
  | some .procedure, false => return .ret none line
  | none, _ => throw ⟨.invalidReturn .outsideRoutine, line⟩
  | some .function, false => throw ⟨.invalidReturn .functionWithoutValue, line⟩
  | some .procedure, true => throw ⟨.invalidReturn .procedureWithValue, line⟩

/-! ## Blocks -/

/-- Statements up to one of the tokens that close the block, or the end of the input. The closing
token stays. -/
def blockWithin (statement : Parser Statement) (closing : List Token) :
    Nat → Parser (List Statement)
  | 0 => return []
  | bound + 1 => do
    skipSeparators
    match ← peek? with
    | none => return []
    | some next =>
      if closing.contains next.token then return []
      else
        let first ← statement
        return first :: (← blockWithin statement closing bound)

/-- What follows `SI`. -/
def branchRest (block : List Token → Parser (List Statement)) (line : Nat) : Parser Statement := do
  let condition ← expression
  expect (.keyword .alors)
  let thenBlock ← block [.keyword .sinon, .keyword .finSi]
  if ← accept (.keyword .sinon) then
    let elseBlock ← block [.keyword .finSi]
    expect (.keyword .finSi)
    return .branch condition thenBlock (some elseBlock) line
  else
    expect (.keyword .finSi)
    return .branch condition thenBlock none line

/-- Takes one of two tokens; the first one is what a message asks for. -/
def expectEither (token other : Token) : Parser Unit := do
  let found ← next?
  if found.map Lexeme.token = some token ∨ found.map Lexeme.token = some other then pure ()
  else unexpected (.token token) found

/-- What follows `POUR`. The closing `FAIRE` of its first line may be left out. -/
def forRest (block : List Token → Parser (List Statement)) (line : Nat) : Parser Statement := do
  let name ← identifier
  expectEither (.keyword .de) (.punct .assign)
  let first ← expression
  expectEither (.keyword .a) (.keyword .jusqua)
  let last ← expression
  let step ← if ← accept (.keyword .pas) then some <$> expression else pure none
  let _ ← accept (.keyword .faire)
  let body ← block [.keyword .finPour]
  expect (.keyword .finPour)
  return .forLoop name first last step body line

/-- What follows `TANT QUE`; its `FAIRE` may be left out. -/
def whileRest (block : List Token → Parser (List Statement)) (line : Nat) : Parser Statement := do
  let condition ← expression
  let _ ← accept (.keyword .faire)
  let body ← block [.keyword .finTantQue]
  expect (.keyword .finTantQue)
  return .whileLoop condition body line

/-- What follows `REPETER`. -/
def repeatRest (block : List Token → Parser (List Statement)) (line : Nat) : Parser Statement := do
  let body ← block [.keyword .jusqua]
  expect (.keyword .jusqua)
  return .repeatLoop body (← expression) line

/-! ## Statements -/

/-- A statement of the given routine, or of the main block, nested at most as deep as the bound. -/
def statementWithin (routine : Option RoutineKind) : Nat → Parser Statement
  | 0 => unexpected .statement none
  | bound + 1 => do
    let block := fun closing => blockWithin (statementWithin routine bound) closing bound
    match ← peek? with
    | none => unexpected .statement none
    | some ⟨token, span⟩ =>
      match token with
      | .ident name => do let _ ← next?; assignOrCall name span.line
      | .keyword .lire => do let _ ← next?; readTargets span.line
      | .keyword .ecrire => do let _ ← next?; writeValues span.line
      | .keyword .si => do let _ ← next?; branchRest block span.line
      | .keyword .pour => do let _ ← next?; forRest block span.line
      | .keyword .tantQue => do let _ ← next?; whileRest block span.line
      | .keyword .repeter => do let _ ← next?; repeatRest block span.line
      | .keyword .retourner => do let _ ← next?; returnValue routine span.line
      | _ => unexpected .statement (some ⟨token, span⟩)

/-- A statement of the given routine, or of the main block. -/
def statement (routine : Option RoutineKind) : Parser Statement := do
  statementWithin routine ((← get).length + 1)

/-- The statements of the given routine, or of the main block, up to a closing token. -/
def block (routine : Option RoutineKind) (closing : List Token) : Parser (List Statement) := do
  blockWithin (statement routine) closing ((← get).length + 1)

end Pseudocode.Parser
