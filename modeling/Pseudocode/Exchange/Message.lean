import Pseudocode.Exchange.Reader
import Pseudocode.Exchange.Writer
import Pseudocode.Execution

/-! Requests and responses. A request is a program with its inputs; the response is what its run
leaves. -/

namespace Pseudocode.Exchange
set_option autoImplicit false

/-! ## Requests -/

/-- A program and its inputs. -/
structure Request where
  source : String
  inputs : List String
deriving DecidableEq, Repr

/-- The content of a document that is a string. -/
def Json.text? : Json → Option String
  | .string content => content
  | _ => none

/-- The contents of a document that is an array of strings. -/
def Json.texts? : Json → Option (List String)
  | .array items => items.mapM Json.text?
  | _ => none

namespace Request

/-- A request from the documents of its parts. -/
def ofParts? (source : Json) (inputs : Option Json) : Option Request := do
  let source ← source.text?
  match inputs with
  | none => return ⟨source, []⟩
  | some inputs => return ⟨source, ← inputs.texts?⟩

/-- The values of all members of the given name. -/
def valuesOf (name : String) (members : List (Content × Json)) : List Json :=
  (members.filter fun member => member.1 == some name).map Prod.snd

/-- A request from the members of an object. The inputs may be left out, nothing may be given twice,
and members of other names do not count. -/
def ofMembers? (members : List (Content × Json)) : Option Request :=
  if members.any fun member => member.1.isNone then none
  else match valuesOf "source" members, valuesOf "inputs" members with
    | [source], [] => ofParts? source none
    | [source], [inputs] => ofParts? source (some inputs)
    | _, _ => none

/-- The request that a document is: an object, or an array of the parts in their order. -/
def ofJson? : Json → Option Request
  | .object members => ofMembers? members
  | .array [source] => ofParts? source none
  | .array [source, inputs] => ofParts? source (some inputs)
  | _ => none

/-- The request of a text. -/
def read? (text : String) : Option Request := do ofJson? (← Json.read? text)

/-- The requests of a text that is an array of them. -/
def readAll? (text : String) : Option (List Request) := do
  match ← Json.read? text with
  | .array items => items.mapM ofJson?
  | _ => none

/-- Runs the program of a request. -/
def execute (request : Request) (limits : Limits) (clock : Clock) : Outcome :=
  Pseudocode.execute request.source request.inputs limits clock

end Request

/-! ## Responses -/

/-- The entry of a variable: its type, and its printed value if it has one. -/
def variableJson (entry : Variable) : Json :=
  let value := if entry.value = .uninitialized then .null else .ofText entry.value.text
  .object [(some "type", .ofText entry.ty.keyword), (some "value", value)]

/-- The response to a request: the output, the error message if there is one, and the variables in
the order of their declaration. -/
def response (outcome : Outcome) : Json :=
  let error := match outcome.failure with
    | some failure => .ofText failure.message
    | none => .null
  .object [(some "output", .ofText outcome.output), (some "error", error),
    (some "variables", .object
      (outcome.snapshot.map fun entry => (some entry.name, variableJson entry)))]

end Pseudocode.Exchange
