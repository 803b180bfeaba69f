import Pseudocode.Token

/-! What can be wrong with a row of tokens. -/

namespace Pseudocode
set_option autoImplicit false

/-- What the grammar needs at some place. -/
inductive Expected where
  | token (token : Token)
  /-- A comma, or the parenthesis that closes the list. -/
  | commaOrClose
  | expression
  | statement
  | identifier
  | type
  /-- What may follow a name at the start of a statement. -/
  | assignOrCall (name : String)
deriving DecidableEq

/-- The wording of what was needed. -/
def Expected.describe : Expected → String
  | .token wanted => wanted.describe
  | .commaOrClose => "',' or ')'"
  | .expression => "an expression"
  | .statement => "a statement"
  | .identifier => "an identifier"
  | .type => "a type (ENTIER, REEL, CHAINE, BOOLEEN or CARACTERE)"
  | .assignOrCall name => "'<-' or '(' after '" ++ name ++ "'"

/-- Why a `RETOURNER` is out of place. -/
inductive ReturnMisuse where
  | outsideRoutine
  | functionWithoutValue
  | procedureWithValue
deriving DecidableEq, Repr

/-- The wording of a misplaced `RETOURNER`. -/
def ReturnMisuse.describe : ReturnMisuse → String
  | .outsideRoutine => "RETOURNER can only be used inside a FONCTION or a PROCEDURE"
  | .functionWithoutValue => "RETOURNER inside a FONCTION needs a value"
  | .procedureWithValue => "A PROCEDURE cannot return a value"

/-- Why a row of tokens is no program. -/
inductive SyntaxCause where
  | unexpectedToken (expected : Expected) (found : Token)
  | unexpectedEnd (expected : Expected)
  | trailingToken (token : Token)
  | invalidReturn (misuse : ReturnMisuse)
  /-- A declared name that is the name of a built-in function. -/
  | reservedName (name : String)
  /-- A declaration after the first statement of a script. -/
  | lateDeclaration
  | nestingTooDeep (limit : Nat)
  | tooManyOperators (limit : Nat)
  | emptyProgram
deriving DecidableEq

/-- The first grammatical error of a program. The line is zero where it is not known: at the end of
the input, until the whole program is looked at, and for an empty program. -/
structure SyntaxError where
  cause : SyntaxCause
  line : Nat
deriving DecidableEq

namespace SyntaxError

/-- The line an error points at; an empty program has none. -/
def line? (error : SyntaxError) : Option Nat :=
  if error.cause = .emptyProgram then none else some error.line

/-- The wording of a cause, without the line. -/
def detail : SyntaxCause → String
  | .unexpectedToken expected found =>
    "Expected " ++ expected.describe ++ ", found " ++ found.describe ++ "."
  | .unexpectedEnd expected => "Expected " ++ expected.describe ++ ", found end of input."
  | .trailingToken token => "Unexpected " ++ token.describe ++ " after the end of the program."
  | .invalidReturn misuse => misuse.describe ++ "."
  | .reservedName name => "Identifier " ++ name ++ " is reserved for a built-in function."
  | .lateDeclaration => "Declarations must come before the first statement."
  | .nestingTooDeep limit => "Nesting is deeper than " ++ toString limit ++ " levels."
  | .tooManyOperators limit => "More than " ++ toString limit ++ " operators on one line."
  | .emptyProgram => "The program is empty."

/-- The wording of a grammatical error. -/
def message (error : SyntaxError) : String :=
  match error.line? with
  | some line => "Error on line " ++ toString line ++ ": " ++ detail error.cause
  | none => detail error.cause

end SyntaxError
end Pseudocode
