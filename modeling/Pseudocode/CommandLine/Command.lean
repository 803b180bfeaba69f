import Pseudocode.CommandLine.Options
import Pseudocode.Exchange.Message
import Pseudocode.Reference

/-! What a command line does: it shows the reference, or runs a program or a list of them. -/

namespace Pseudocode.CommandLine
set_option autoImplicit false

/-- Why a command line does nothing. -/
inductive Refusal where
  | usage
  | unreadable (path : String)
  | invalidRequest
  | invalidBatch
deriving DecidableEq, Repr

/-- The wording of a refusal. -/
def Refusal.message : Refusal → String
  | .usage => "Usage: [OPTIONS] [CONTENTS]"
  | .unreadable path =>
    "Failed to read the input file '" ++ path ++
      "'. Perhaps this file does not exist? (No such file or directory (os error 2))"
  | .invalidRequest => "Invalid request file"
  | .invalidBatch => "Invalid batch file"

/-- What a command line prints, and whether everything it ran ended without an error. -/
structure Report where
  success : Bool
  output : String
  errors : String
deriving DecidableEq, Repr

namespace Options

/-- The budgets that the options give. -/
def limits (options : Options) : Limits where
  maxSteps := options.maxSteps.getD Limits.standard.maxSteps
  maxDepth := options.maxDepth.getD Limits.standard.maxDepth
  timeout := options.timeout.map .ofMillis

/-- The path of the file that is needed, if one is. -/
def path? (options : Options) : Option String :=
  if !options.has .reference && (options.has .file || options.has .request || options.has .batch)
  then some (options.contents.getD "")
  else none

end Options

/-- The text of the file at a path. -/
def readPath (files : String → Option String) (path : String) : Except Refusal String :=
  match files path with
  | some text => .ok text
  | none => .error (.unreadable path)

/-- The value of an option, or a refusal. -/
def orRefuse {α : Type} (refusal : Refusal) : Option α → Except Refusal α
  | some a => .ok a
  | none => .error refusal

/-- A document in the layout of the command line. -/
def printed (json : Exchange.Json) : String := json.write .pretty ++ "\n"

/-- What the run of a program prints. -/
def reportOf (asJson : Bool) (outcome : Outcome) : Report :=
  if asJson then ⟨outcome.failure.isNone, printed (Exchange.response outcome), ""⟩
  else
    let errors := match outcome.failure with
      | some failure => failure.message ++ "\n"
      | none => ""
    ⟨outcome.failure.isNone, outcome.output, errors⟩

/-- The program that the options are about, with its inputs. -/
def requestOf (options : Options) (files : String → Option String) :
    Except Refusal Exchange.Request := do
  let contents := options.contents.getD ""
  if options.has .request then
    orRefuse .invalidRequest (Exchange.Request.read? (← readPath files contents))
  else if options.has .file then return ⟨← readPath files contents, options.inputs⟩
  else return ⟨contents, options.inputs⟩

/-- What a list of requests prints: the responses in the same order. Every run has its own clock. -/
def runBatch (options : Options) (clocks : Nat → Clock) (text : String) :
    Except Refusal Report := do
  let requests ← orRefuse .invalidBatch (Exchange.Request.readAll? text)
  let outcomes := requests.mapIdx fun i request => request.execute options.limits (clocks i)
  return ⟨outcomes.all (·.failure.isNone),
    printed (.array (outcomes.map Exchange.response)), ""⟩

/-- What the options ask for, given the texts of files and the clocks of runs. -/
def run (options : Options) (files : String → Option String) (clocks : Nat → Clock) :
    Except Refusal Report :=
  if options.has .reference then .ok ⟨true, reference, ""⟩
  else if options.has .batch then do
    runBatch options clocks (← readPath files (options.contents.getD ""))
  else do
    let request ← requestOf options files
    return reportOf (options.has .json) (request.execute options.limits (clocks 0))

/-- What a command line does, given the texts of files and the clocks of runs. -/
def command (words : List String) (files : String → Option String) (clocks : Nat → Clock) :
    Except Refusal Report := do
  run (← orRefuse .usage (Options.read? words)) files clocks

end Pseudocode.CommandLine
