import Pseudocode.Text.Lowercase
import Pseudocode.RuntimeError

/-! Scopes: declared names with their types and values, in the order of declaration. Names are found
by their key, so letter case does not count, and keep the spelling of their declaration. -/

namespace Pseudocode
set_option autoImplicit false

/-- A declared name. -/
structure Binding where
  name : String
  ty : Ty
  value : Value
  constant : Bool
deriving DecidableEq

/-- A scope: the bindings in the order of their declaration, each with the key of its name. -/
structure Environment where
  entries : List (String × Binding)
deriving DecidableEq

namespace Environment

/-- The scope without names. -/
def empty : Environment := ⟨[]⟩

/-- The bindings in the order of their declaration. -/
def bindings (env : Environment) : List Binding := env.entries.map Prod.snd

/-- The binding of a name in this scope. -/
def get? (env : Environment) (name : String) : Option Binding :=
  env.entries.lookup (Text.nameKey name)

/-- Adds a binding at the end, unless its name is already bound. -/
def insert (env : Environment) (binding : Binding) (line : Nat) :
    Except RuntimeError Environment :=
  match env.get? binding.name with
  | some _ => .error ⟨.alreadyDeclared binding.name, line⟩
  | none => .ok ⟨env.entries ++ [(Text.nameKey binding.name, binding)]⟩

/-- Declares a variable, which is uninitialized. -/
def declare (env : Environment) (name : String) (ty : Ty) (line : Nat) :
    Except RuntimeError Environment :=
  env.insert ⟨name, ty, .uninitialized, false⟩ line

/-- Declares names that already have a value: constants and parameters. -/
def define (env : Environment) (name : String) (ty : Ty) (value : Value) (constant : Bool)
    (line : Nat) : Except RuntimeError Environment :=
  env.insert ⟨name, ty, value, constant⟩ line

/-- Replaces the value of the entry with the given key. -/
def setEntry (key : String) (value : Value) : List (String × Binding) → List (String × Binding)
  | [] => []
  | (k, binding) :: rest =>
    if key == k then (k, { binding with value }) :: rest
    else (k, binding) :: setEntry key value rest

/-- Stores a value under a name, if it is bound. -/
def set (env : Environment) (name : String) (value : Value) : Environment :=
  ⟨setEntry (Text.nameKey name) value env.entries⟩

/-- Declares variables one after the other. -/
def declareAll (env : Environment) : List (String × Ty × Nat) → Except RuntimeError Environment
  | [] => .ok env
  | (name, ty, line) :: rest => do (← env.declare name ty line).declareAll rest

end Environment
end Pseudocode
