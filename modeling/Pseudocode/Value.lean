import Pseudocode.Number.Fixed
import Pseudocode.Token

/-! Values: what variables hold and expressions yield, their types and their printed form. -/

namespace Pseudocode
set_option autoImplicit false

/-- A value. A declared variable is uninitialized until something is stored in it. -/
inductive Value where
  | integer (n : Entier)
  | real (x : Reel)
  | string (s : String)
  | boolean (b : Bool)
  | character (c : Char)
  | uninitialized
deriving DecidableEq

/-- The value that a literal denotes. -/
def Literal.toValue : Literal → Value
  | .integer n => .integer n
  | .real x => .real x
  | .string s => .string s
  | .character c => .character c
  | .boolean b => .boolean b

/-- The name of a type in messages, or the word for the lack of one. -/
def typeName : Option Ty → String
  | some ty => ty.keyword
  | none => "uninitialized"

namespace Value

/-- The type of a value; what is uninitialized has none. -/
def ty? : Value → Option Ty
  | .integer _ => some .entier
  | .real _ => some .reel
  | .string _ => some .chaine
  | .boolean _ => some .booleen
  | .character _ => some .caractere
  | .uninitialized => none

/-- The printed form of a value. -/
def text : Value → String
  | .integer n => n.text
  | .real x => Reel.text x
  | .string s => s
  | .boolean b => truthText b
  | .character c => String.singleton c
  | .uninitialized => "?"

/-- The text of a `CHAINE` or a `CARACTERE`. -/
def text? : Value → Option String
  | .string s => some s
  | .character c => some (String.singleton c)
  | _ => none

/-- Whether a value is an `ENTIER` or a `REEL`. -/
def isNumeric : Value → Bool
  | .integer _ | .real _ => true
  | _ => false

/-- Whether a value is a `CHAINE` or a `CARACTERE`. -/
def isText : Value → Bool
  | .string _ | .character _ => true
  | _ => false

/-- The real number that a number is or is nearest to. -/
def reel? : Value → Option Reel
  | .real x => some x
  | .integer n => some (Reel.ofEntier n)
  | _ => none

end Value
end Pseudocode
