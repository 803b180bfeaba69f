import Pseudocode.Value

/-! What can go wrong while a program runs: causes, and one wording for each. -/

namespace Pseudocode
set_option autoImplicit false

/-! ## Causes -/

/-- Where a value was to be stored. -/
inductive Destination where
  | var (name : String)
  | const (name : String)
  | param (name routine : String)
  | result (routine : String)
  /-- A place in the words of whoever stores there. -/
  | place (description : String)
deriving DecidableEq, Repr

/-- A value or an operator of the wrong type. The types of the operands are given, none for what is
uninitialized. -/
inductive Mismatch where
  | store (value : Value) (destination : Destination) (target : Ty)
  | notANumber (found : Option Ty)
  | notAnEntier (found : Option Ty)
  | notABooleen (found : Option Ty)
  | negate (found : Option Ty)
  /-- `DIV` or `MOD` with a `REEL`. -/
  | needsEntiers (op : BinOp) (left right : Option Ty)
  | cannotApply (op : BinOp) (left right : Option Ty)
  | notArithmetic (op : BinOp)
  | cannotCompare (op : BinOp) (left right : Option Ty)
  | badInput (raw : String) (target : Ty) (name : String)
  | loopVariable (name : String) (found : Ty)
  /-- An argument of the built-in function of that name that is no number. -/
  | argumentNotANumber (function : String) (found : Option Ty)
  | lengthOfNoText (found : Option Ty)
  | exponentNotAnEntier (found : Option Ty)
deriving DecidableEq

/-- An argument outside of what a built-in function is defined on. -/
inductive DomainFault where
  | negativeExponent (exponent : Entier)
  | negativeRoot (argument : Value)
deriving DecidableEq

/-- The budget that a call exceeded. -/
inductive CallBudget where
  | steps (limit : Nat)
  | depth (limit : Nat)
deriving DecidableEq, Repr

/-- Why a run stopped. -/
inductive RuntimeCause where
  | undeclaredVariable (name : String)
  | uninitializedVariable (name : String)
  | alreadyDeclared (name : String)
  | constantAssignment (name : String)
  | typeMismatch (mismatch : Mismatch)
  | divisionByZero
  | domainError (fault : DomainFault)
  | overflow
  | inputExhausted (name : String) (supplied : Nat)
  | arityError (name : String) (expected found : Nat)
  | unknownFunction (name : String)
  | functionAlreadyDefined (name : String)
  | missingReturn (name : String)
  | noReturnValue (name : String)
  | invalidLoopStep
  | infiniteLoop (limit : Nat)
  | unboundedRecursion (name : String) (budget : CallBudget)
  | timeout (millis : Nat)
deriving DecidableEq

/-- The error that stopped a run, and the line it points at. -/
structure RuntimeError where
  cause : RuntimeCause
  line : Nat
deriving DecidableEq

/-! ## Wording -/

/-- The wording of a destination. -/
def Destination.describe : Destination → String
  | .var name => "variable '" ++ name ++ "'"
  | .const name => "constant '" ++ name ++ "'"
  | .param name routine => "parameter '" ++ name ++ "' of '" ++ routine ++ "'"
  | .result routine => "the result of '" ++ routine ++ "'"
  | .place description => description

/-- The wording of a mismatch. -/
def Mismatch.describe : Mismatch → String
  | .store value destination target =>
    "cannot store " ++ typeName value.ty? ++ " " ++ value.text ++ " in " ++ destination.describe ++
      " of type " ++ target.keyword
  | .notANumber found => "expected a number, found " ++ typeName found
  | .notAnEntier found => "expected an ENTIER, found " ++ typeName found
  | .notABooleen found => "expected a BOOLEEN, found " ++ typeName found
  | .negate found => "cannot negate a " ++ typeName found
  | .needsEntiers op left right =>
    op.text ++ " needs two ENTIER operands, found " ++ typeName left ++ " and " ++ typeName right
  | .cannotApply op left right =>
    "cannot apply " ++ op.text ++ " to " ++ typeName left ++ " and " ++ typeName right
  | .notArithmetic op => op.text ++ " is not an arithmetic operator"
  | .cannotCompare op left right =>
    "cannot compare " ++ typeName left ++ " and " ++ typeName right ++ " with " ++ op.text
  | .badInput raw target name =>
    "input \"" ++ raw ++ "\" is not a valid " ++ target.keyword ++ " for '" ++ name ++ "'"
  | .loopVariable name found =>
    "the POUR variable '" ++ name ++ "' must be an ENTIER, not " ++ found.keyword
  | .argumentNotANumber function found =>
    function ++ " expects an ENTIER or a REEL, found " ++ typeName found
  | .lengthOfNoText found => "LONGUEUR expects a CHAINE, found " ++ typeName found
  | .exponentNotAnEntier found => "PUISSANCE expects an ENTIER exponent, found " ++ typeName found

/-- The wording of an argument outside of the domain. -/
def DomainFault.describe : DomainFault → String
  | .negativeExponent exponent => "negative exponent " ++ exponent.text ++ " with an ENTIER base"
  | .negativeRoot argument => "RACINE of a negative number (" ++ argument.text ++ ")"

/-- The wording of an exceeded budget. -/
def CallBudget.describe : CallBudget → String
  | .steps limit => "more than " ++ toString limit ++ " steps"
  | .depth limit => "call depth exceeded " ++ toString limit

namespace RuntimeCause

/-- The name of a kind of error. -/
def kind : RuntimeCause → String
  | .undeclaredVariable _ => "UndeclaredVariable"
  | .uninitializedVariable _ => "UninitializedVariable"
  | .alreadyDeclared _ => "AlreadyDeclared"
  | .constantAssignment _ => "ConstantAssignment"
  | .typeMismatch _ => "TypeMismatch"
  | .divisionByZero => "DivisionByZero"
  | .domainError _ => "DomainError"
  | .overflow => "Overflow"
  | .inputExhausted _ _ => "InputExhausted"
  | .arityError _ _ _ => "ArityError"
  | .unknownFunction _ => "UnknownFunction"
  | .functionAlreadyDefined _ => "FunctionAlreadyDefined"
  | .missingReturn _ => "MissingReturn"
  | .noReturnValue _ => "NoReturnValue"
  | .invalidLoopStep => "InvalidLoopStep"
  | .infiniteLoop _ => "InfiniteLoopDetected"
  | .unboundedRecursion _ _ => "UnboundedRecursion"
  | .timeout _ => "Timeout"

/-- The wording of a cause, without the line. -/
def describe : RuntimeCause → String
  | .undeclaredVariable name => "Variable '" ++ name ++ "' is not declared."
  | .uninitializedVariable name => "Variable '" ++ name ++ "' is used before it has a value."
  | .alreadyDeclared name => "'" ++ name ++ "' is already declared."
  | .constantAssignment name => "Cannot modify constant '" ++ name ++ "'."
  | .typeMismatch mismatch => "Type mismatch: " ++ mismatch.describe ++ "."
  | .divisionByZero => "Division by zero."
  | .domainError fault => "Domain error: " ++ fault.describe ++ "."
  | .overflow => "Numeric overflow while trying to compute result."
  | .inputExhausted name supplied =>
    "No input left for LIRE(" ++ name ++ "); only " ++ toString supplied ++
      " value(s) were supplied."
  | .arityError name expected found =>
    "'" ++ name ++ "' expects " ++ toString expected ++ " argument(s) but received " ++
      toString found ++ "."
  | .unknownFunction name => "Unknown function or procedure '" ++ name ++ "'."
  | .functionAlreadyDefined name =>
    "Function or procedure '" ++ name ++ "' is already defined."
  | .missingReturn name => "Function '" ++ name ++ "' ended without RETOURNER."
  | .noReturnValue name => "Procedure '" ++ name ++ "' does not return a value."
  | .invalidLoopStep => "POUR loop step cannot be zero."
  | .infiniteLoop limit => "Infinite loop detected (more than " ++ toString limit ++ " steps)."
  | .unboundedRecursion name budget =>
    "Unbounded recursion in '" ++ name ++ "': " ++ budget.describe ++ "."
  | .timeout millis => "Execution exceeded " ++ toString millis ++ " ms."

end RuntimeCause

/-- The wording of a runtime error. -/
def RuntimeError.message (error : RuntimeError) : String :=
  "Error on line " ++ toString error.line ++ ": " ++ error.cause.describe

end Pseudocode
