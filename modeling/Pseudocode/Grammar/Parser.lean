import Pseudocode.Builtin
import Pseudocode.Grammar.Error

/-! Reading a row of tokens from its front. A parser takes what it needs and leaves the rest, or
fails with the first error; the small parsers here are what every construct is made of. -/

namespace Pseudocode
set_option autoImplicit false

/-- A parser takes tokens from the front of a row and leaves the rest. -/
abbrev Parser (α : Type) := StateT (List Lexeme) (Except SyntaxError) α

namespace Parser

/-! ## Single tokens -/

/-- The next token, which stays. -/
def peek? : Parser (Option Lexeme) := fun ls => .ok (ls.head?, ls)

/-- The next token, which is taken. -/
def next? : Parser (Option Lexeme) := fun ls => .ok (ls.head?, ls.tail)

/-- Fails because something else than `found` was needed. The line of the end of the input is left
open. -/
def unexpected {α : Type} (expected : Expected) (found : Option Lexeme) : Parser α := fun _ =>
  match found with
  | some lexeme => .error ⟨.unexpectedToken expected lexeme.token, lexeme.span.line⟩
  | none => .error ⟨.unexpectedEnd expected, 0⟩

/-- Takes the next token, which must be the given one. -/
def expect (token : Token) : Parser Unit := do
  let found ← next?
  if found.map Lexeme.token = some token then pure () else unexpected (.token token) found

/-- Takes the next token if it is the given one, and tells whether it was. -/
def accept (token : Token) : Parser Bool := do
  if (← peek?).map Lexeme.token = some token then
    let _ ← next?
    return true
  else return false

/-- Skips the tokens that separate statements. -/
def skipSeparators : Parser Unit := fun ls =>
  .ok ((), ls.dropWhile (·.token.isSeparator))

/-- The line of the next token, zero at the end. -/
def nextLine : Parser Nat := fun ls =>
  .ok ((ls.head?.map (·.span.line)).getD 0, ls)

/-! ## Names and types -/

/-- A name. -/
def identifier : Parser String := do
  match ← next? with
  | some ⟨.ident name, _⟩ => return name
  | found => unexpected .identifier found

/-- The name of something that is declared, which is not that of a built-in function. -/
def declaredName : Parser String := do
  let line ← nextLine
  let name ← identifier
  if isBuiltin name then throw ⟨.reservedName name, line⟩ else return name

/-- A type. -/
def type : Parser Ty := do
  match ← next? with
  | some ⟨.type ty, _⟩ => return ty
  | found => unexpected .type found

/-! ## Lists

The number bounds the length of the list; one more than the number of tokens is always enough. -/

/-- Items with commas between them and a parenthesis that closes the list. -/
def itemsToClose {α : Type} (item : Parser α) : Nat → Parser (List α)
  | 0 => unexpected (.token (.punct .rparen)) none
  | bound + 1 => do
    let first ← item
    match ← next? with
    | some ⟨.punct .comma, _⟩ => return first :: (← itemsToClose item bound)
    | some ⟨.punct .rparen, _⟩ => return [first]
    | none => unexpected (.token (.punct .rparen)) none
    | found => unexpected .commaOrClose found

/-- The rest of a list in parentheses after the opening one; it may be empty. -/
def closedList {α : Type} (item : Parser α) : Parser (List α) := do
  if ← accept (.punct .rparen) then return []
  else itemsToClose item ((← get).length + 1)

/-- One or more items with commas between them. -/
def itemsWithCommas {α : Type} (item : Parser α) : Nat → Parser (List α)
  | 0 => return [← item]
  | bound + 1 => do
    let first ← item
    if ← accept (.punct .comma) then return first :: (← itemsWithCommas item bound)
    else return [first]

/-- A list without parentheses; it is not empty. -/
def openList {α : Type} (item : Parser α) : Parser (List α) := do
  itemsWithCommas item (← get).length

end Parser
end Pseudocode
