/-! The five types a variable, constant, parameter or result is declared with. -/

namespace Pseudocode
set_option autoImplicit false

/-- A declarable type. -/
inductive Ty where
  /-- A 64-bit signed integer. -/
  | entier
  /-- A double precision number. -/
  | reel
  /-- A text. -/
  | chaine
  /-- A truth value. -/
  | booleen
  /-- A single character. -/
  | caractere
deriving DecidableEq, Repr

namespace Ty

/-- The types in the order the reference lists them. -/
def all : List Ty := [.entier, .reel, .chaine, .booleen, .caractere]

/-- The keyword that names the type in programs and in answers. -/
def keyword : Ty → String
  | .entier => "ENTIER"
  | .reel => "REEL"
  | .chaine => "CHAINE"
  | .booleen => "BOOLEEN"
  | .caractere => "CARACTERE"

/-- Whether the values of the type take part in arithmetic. -/
def isNumeric : Ty → Bool
  | .entier | .reel => true
  | _ => false

end Ty
end Pseudocode
