import Pseudocode.Token

/-! What can be wrong with a source before it is a row of tokens. -/

namespace Pseudocode
set_option autoImplicit false

/-- Why no token could be read. -/
inductive LexCause where
  | unterminatedString
  | malformedCharacter
  /-- An integer literal, given by its digits, that is no `ENTIER`. -/
  | integerTooLarge (digits : String)
  | unrecognized (c : Char)
deriving DecidableEq, Repr

/-- The wording of a cause. -/
def LexCause.message : LexCause → String
  | .unterminatedString => "Unterminated string literal"
  | .malformedCharacter => "Malformed character literal"
  | .integerTooLarge digits => "Integer literal " ++ digits ++ " is too large"
  | .unrecognized c => "Unrecognized character '" ++ String.singleton c ++ "'"

/-- The first place of a source where no token could be read, and why. -/
structure LexError where
  cause : LexCause
  span : Span
deriving DecidableEq, Repr

/-- The wording of a lexical error. -/
def LexError.message (error : LexError) : String :=
  "Error on line " ++ toString error.span.line ++ ", column " ++ toString error.span.column ++
    ": " ++ error.cause.message ++ "."

end Pseudocode
