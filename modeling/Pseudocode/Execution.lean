import Pseudocode.Grammar.Layout
import Pseudocode.Machine.Call
import Pseudocode.Token.Join

/-! From the source of a program to what its run leaves: the output, the variables of the main
program and the first error, of whichever kind. -/

namespace Pseudocode
set_option autoImplicit false

/-! ## Failures -/

/-- The error that a run ended with. -/
inductive Failure where
  | lexical (error : LexError)
  | grammatical (error : SyntaxError)
  | runtime (error : RuntimeError)
deriving DecidableEq

namespace Failure

/-- The name of the kind of error. -/
def kind : Failure → String
  | .lexical _ => "LexError"
  | .grammatical _ => "ParseError"
  | .runtime error => error.cause.kind

/-- The line it points at, unless the program is empty. -/
def line? : Failure → Option Nat
  | .lexical error => some error.span.line
  | .grammatical error => error.line?
  | .runtime error => some error.line

/-- The column it points at, which only lexical errors have. -/
def column? : Failure → Option Nat
  | .lexical error => some error.span.column
  | _ => none

/-- The wording of the error. -/
def detail : Failure → String
  | .lexical error => error.message
  | .grammatical error => error.message
  | .runtime error => error.message

/-- The message that is shown: the kind and the wording. -/
def message (failure : Failure) : String := failure.kind ++ ": " ++ failure.detail

end Failure

/-! ## Results -/

/-- A variable or constant of the main program, as a run left it. -/
structure Variable where
  name : String
  ty : Ty
  value : Value
deriving DecidableEq

/-- The variables and constants of the main program, in the order of their declaration. -/
abbrev Snapshot := List Variable

/-- The variables of a scope as they stand. -/
def Environment.snapshot (env : Environment) : Snapshot :=
  env.bindings.map fun binding => ⟨binding.name, binding.ty, binding.value⟩

/-- The value of a name, in any letter case. -/
def Snapshot.get? (snapshot : Snapshot) (name : String) : Option Value :=
  (snapshot.find? fun entry => Text.nameKey entry.name == Text.nameKey name).map Variable.value

/-- What a run leaves. -/
structure Outcome where
  output : String
  failure : Option Failure
  snapshot : Snapshot
deriving DecidableEq

/-- What is left when there was no run. -/
def Outcome.failed (failure : Failure) : Outcome := ⟨"", some failure, []⟩

/-- What a finished or stopped machine leaves. -/
def Outcome.ofResult : EStateM.Result RuntimeError Machine Unit → Outcome
  | .ok _ m => ⟨m.output, none, m.globals.snapshot⟩
  | .error e m => ⟨m.output, some (.runtime e), m.globals.snapshot⟩

/-- The program of a source, or the first error in it. -/
def parseSource (source : String) : Except Failure Program :=
  match tokenize source with
  | .error e => .error (.lexical e)
  | .ok lexemes =>
    match parse lexemes with
    | .error e => .error (.grammatical e)
    | .ok program => .ok program

/-- Runs a source on the given inputs within the given budgets. -/
def execute (source : String) (inputs : List String) (limits : Limits) (clock : Clock) : Outcome :=
  match parseSource source with
  | .error failure => .failed failure
  | .ok program => .ofResult (program.run (.initial inputs limits clock))

end Pseudocode
