import Pseudocode.Number.Shortest
import Pseudocode.Operator
import Pseudocode.Ty

/-! Tokens: the smallest meaningful units of a program, the canonical spelling of those that have
one, and the words by which messages speak of them. -/

namespace Pseudocode
set_option autoImplicit false

/-! ## Kinds of tokens -/

/-- A value written in a program. -/
inductive Literal where
  | integer (n : Entier)
  | real (x : Reel)
  | string (s : String)
  | character (c : Char)
  | boolean (b : Bool)
deriving DecidableEq

/-- A keyword, named after its spelling. -/
inductive Keyword where
  | algorithme | constantes | vars | debut | fin
  | si | alors | sinon | finSi
  | pour | de | a | pas | faire | finPour
  | tantQue | finTantQue | repeter | jusqua
  | fonction | procedure | retourner
  | lire | ecrire
  /-- The negation `NON`, the one operator that only stands in front of an operand. -/
  | non
deriving DecidableEq, Repr

/-- A punctuation mark. -/
inductive Punct where
  | assign | lparen | rparen | comma | colon | semicolon
deriving DecidableEq, Repr

/-- A token. The minus in front of an operand is the same token as the one between two. -/
inductive Token where
  | literal (value : Literal)
  | type (ty : Ty)
  | keyword (word : Keyword)
  | op (op : BinOp)
  | punct (mark : Punct)
  | ident (name : String)
  | newline
deriving DecidableEq

/-! ## Spelling -/

/-- The canonical spelling of a keyword. -/
def Keyword.text : Keyword → String
  | .algorithme => "ALGORITHME"
  | .constantes => "CONSTANTES"
  | .vars => "VARIABLES"
  | .debut => "DEBUT"
  | .fin => "FIN"
  | .si => "SI"
  | .alors => "ALORS"
  | .sinon => "SINON"
  | .finSi => "FINSI"
  | .pour => "POUR"
  | .de => "DE"
  | .a => "A"
  | .pas => "PAS"
  | .faire => "FAIRE"
  | .finPour => "FINPOUR"
  | .tantQue => "TANT QUE"
  | .finTantQue => "FINTANTQUE"
  | .repeter => "REPETER"
  | .jusqua => "JUSQU'A"
  | .fonction => "FONCTION"
  | .procedure => "PROCEDURE"
  | .retourner => "RETOURNER"
  | .lire => "LIRE"
  | .ecrire => "ECRIRE"
  | .non => "NON"

/-- The canonical spelling of a punctuation mark. -/
def Punct.text : Punct → String
  | .assign => "<-"
  | .lparen => "("
  | .rparen => ")"
  | .comma => ","
  | .colon => ":"
  | .semicolon => ";"

/-- The spelling of a truth value. -/
def truthText (b : Bool) : String := if b then "VRAI" else "FAUX"

namespace Token

/-- The canonical spelling of a token that is always written alike. -/
def spelling? : Token → Option String
  | .literal (.boolean b) => some (truthText b)
  | .type ty => some ty.keyword
  | .keyword word => some word.text
  | .op o => some o.text
  | .punct mark => some mark.text
  | .literal _ | .ident _ | .newline => none

/-- How a message speaks of a token. -/
def describe (token : Token) : String :=
  match token with
  | .literal (.integer n) => "integer literal " ++ n.text
  | .literal (.real x) => "real literal " ++ Reel.shortestText x
  | .literal (.string s) => "string literal \"" ++ s ++ "\""
  | .literal (.character c) => "character literal '" ++ String.singleton c ++ "'"
  | .ident name => "identifier '" ++ name ++ "'"
  | .newline => "end of line"
  | .literal (.boolean b) => "'" ++ truthText b ++ "'"
  | .type ty => "'" ++ ty.keyword ++ "'"
  | .keyword word => "'" ++ word.text ++ "'"
  | .op o => "'" ++ o.text ++ "'"
  | .punct mark => "'" ++ mark.text ++ "'"

/-! ## Classes -/

/-- Whether a token is an operator, between operands or in front of one. -/
def isOperator : Token → Bool
  | .op _ | .keyword .non => true
  | _ => false

/-- Whether a token separates statements. -/
def isSeparator : Token → Bool
  | .newline | .punct .semicolon => true
  | _ => false

/-- Whether an expression may start with the token. -/
def startsExpression : Token → Bool
  | .ident _ | .literal _ | .punct .lparen | .op .sub | .keyword .non => true
  | _ => false

end Token

/-! ## Places -/

/-- A place in the source. Lines and columns count from one, columns in characters. -/
structure Span where
  line : Nat
  column : Nat
deriving DecidableEq, Repr

/-- A token and the place of its first character. -/
structure Lexeme where
  token : Token
  span : Span
deriving DecidableEq

end Pseudocode
