import Pseudocode.Text.Lowercase

/-! The built-in functions: their names, which programs may not declare, and how the reference
presents them. -/

namespace Pseudocode
set_option autoImplicit false

/-- A built-in function, named by its spelling. -/
inductive Builtin where
  | abs | racine | puissance | longueur | carre | ent | arrondi
deriving DecidableEq, Repr

namespace Builtin

/-- The built-in functions in the order of the reference. -/
def all : List Builtin := [.abs, .racine, .puissance, .longueur, .carre, .ent, .arrondi]

/-- The name that programs call the function by. -/
def name : Builtin → String
  | .abs => "ABS"
  | .racine => "RACINE"
  | .puissance => "PUISSANCE"
  | .longueur => "LONGUEUR"
  | .carre => "CARRE"
  | .ent => "ENT"
  | .arrondi => "ARRONDI"

/-- The number of arguments. -/
def arity : Builtin → Nat
  | .puissance => 2
  | _ => 1

/-- The types of arguments and result, as the reference shows them. -/
def signature : Builtin → String
  | .abs => "ABS(x : ENTIER|REEL) : type of x"
  | .racine => "RACINE(x : ENTIER|REEL) : REEL"
  | .puissance => "PUISSANCE(x : ENTIER|REEL, n : ENTIER) : type of x"
  | .longueur => "LONGUEUR(s : CHAINE) : ENTIER"
  | .carre => "CARRE(x : ENTIER|REEL) : type of x"
  | .ent => "ENT(x : ENTIER|REEL) : ENTIER"
  | .arrondi => "ARRONDI(x : ENTIER|REEL) : ENTIER"

/-- What the function computes, as the reference says it. -/
def summary : Builtin → String
  | .abs => "absolute value"
  | .racine => "square root, x must not be negative"
  | .puissance => "x raised to the power n"
  | .longueur => "number of characters"
  | .carre => "x multiplied by itself"
  | .ent => "integer part, truncated towards zero"
  | .arrondi => "nearest ENTIER, halves away from zero"

/-- The built-in function of a name, in any case of its ASCII letters. -/
def find? (name : String) : Option Builtin :=
  all.find? fun builtin => Text.sameAsciiWord builtin.name name

end Builtin

/-- Whether a name is the name of a built-in function. -/
def isBuiltin (name : String) : Bool :=
  (Builtin.find? name).isSome

end Pseudocode
