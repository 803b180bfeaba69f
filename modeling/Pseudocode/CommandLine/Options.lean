import Pseudocode.Number.Decimal

/-! The options of the command line. They may stand before and after the contents; a value is a word
of its own or attached to its option, and `--` ends the options. -/

namespace Pseudocode.CommandLine
set_option autoImplicit false

/-! ## What can be given -/

/-- An option that is given or not. -/
inductive Flag where
  /-- The contents are the path of a program. -/
  | file
  /-- The answer is a response. -/
  | json
  /-- The contents are the path of a request. -/
  | request
  /-- The contents are the path of a list of requests. -/
  | batch
  /-- The reference is asked for. -/
  | reference
deriving DecidableEq, Repr

/-- An option with a value. -/
inductive Setting where
  /-- The next input; this one may be repeated. -/
  | input
  | maxSteps
  | maxDepth
  | timeout
deriving DecidableEq, Repr

/-- What a command line says. -/
structure Options where
  flags : List Flag
  inputs : List String
  maxSteps : Option Nat
  maxDepth : Option Nat
  timeout : Option Nat
  contents : Option String
deriving DecidableEq, Repr

namespace Options

/-- What an empty command line says. -/
def empty : Options := ⟨[], [], none, none, none, none⟩

/-- Whether a flag is given. -/
def has (options : Options) (flag : Flag) : Bool := options.flags.contains flag

/-! ## Adding to the options

Nothing but inputs may be given twice. -/

/-- One more flag. -/
def raise (options : Options) (flag : Flag) : Option Options :=
  if options.has flag then none else some { options with flags := flag :: options.flags }

/-- A number of at most 64 bits, perhaps with a plus in front. -/
def number? (word : String) : Option Nat :=
  let digits := match word.toList with
    | '+' :: cs => cs
    | cs => cs
  if Decimal.isNumeral digits && Decimal.value digits < 18446744073709551616 then
    some (Decimal.value digits)
  else none

/-- A value of an option that has none yet. -/
def once (present : Option Nat) (word : String) : Option Nat :=
  if present.isSome then none else number? word

/-- One more value. -/
def assign (options : Options) (setting : Setting) (word : String) : Option Options :=
  match setting with
  | .input => some { options with inputs := options.inputs ++ [word] }
  | .maxSteps => (once options.maxSteps word).map fun n => { options with maxSteps := some n }
  | .maxDepth => (once options.maxDepth word).map fun n => { options with maxDepth := some n }
  | .timeout => (once options.timeout word).map fun n => { options with timeout := some n }

/-- The contents. -/
def withContents (options : Options) (word : String) : Option Options :=
  if options.contents.isSome then none else some { options with contents := some word }

/-! ## Reading words -/

/-- The flag of a long name. -/
def flag? (name : String) : Option Flag :=
  [("file", Flag.file), ("json", .json), ("request", .request), ("batch", .batch),
    ("syntax", .reference)].lookup name

/-- The option with a value of a long name. -/
def setting? (name : String) : Option Setting :=
  [("input", Setting.input), ("max-steps", .maxSteps), ("max-depth", .maxDepth),
    ("timeout-ms", .timeout)].lookup name

/-- Options after a word, and the one whose value is the next word, if there is one. -/
abbrev Progress := Options × Option Setting

/-- A word that starts with two dashes, after them. -/
def long (options : Options) (cs : List Char) : Option Progress :=
  let name := String.ofList (cs.takeWhile (· != '='))
  match cs.dropWhile (· != '='), flag? name, setting? name with
  | [], some flag, _ => (options.raise flag).map (·, none)
  | [], none, some setting => some (options, some setting)
  | _ :: value, none, some setting =>
    (options.assign setting (String.ofList value)).map (·, none)
  | _, _, _ => none

/-- A word that starts with one dash, after it: letters of flags, and perhaps the one of an option
with a value, to which the rest of the word belongs. -/
def short (options : Options) : List Char → Option Progress
  | [] => some (options, none)
  | 'f' :: cs => (options.raise .file).bind fun options => options.short cs
  | ['i'] => some (options, some .input)
  | 'i' :: '=' :: value => (options.assign .input (String.ofList value)).map (·, none)
  | 'i' :: value => (options.assign .input (String.ofList value)).map (·, none)
  | _ => none

/-- Words after the end of the options, all of which are contents. -/
def trailing (options : Options) : List String → Option Options
  | [] => some options
  | word :: rest => (options.withContents word).bind fun options => options.trailing rest

/-- The words of a command line, after `options` and perhaps an option that waits for its value. A
word that looks like an option is no value. -/
def readFrom (options : Options) (waiting : Option Setting) : List String → Option Options
  | [] => if waiting.isSome then none else some options
  | word :: rest =>
    match word.toList, waiting with
    | ['-', '-'], none => options.trailing rest
    | '-' :: '-' :: cs, none =>
      (options.long cs).bind fun (options, waiting) => options.readFrom waiting rest
    | '-' :: c :: cs, none =>
      (options.short (c :: cs)).bind fun (options, waiting) => options.readFrom waiting rest
    | '-' :: _ :: _, some _ => none
    | _, some setting =>
      (options.assign setting word).bind fun options => options.readFrom none rest
    | _, none => (options.withContents word).bind fun options => options.readFrom none rest

/-- Whether the options go together. Contents are needed unless the reference is asked for. -/
def consistent (options : Options) : Bool :=
  !(options.has .request && (options.has .file || options.has .batch)) &&
    !(options.has .batch && options.has .file) &&
    (options.contents.isSome || options.has .reference)

/-- What a command line says, if it can be understood. -/
def read? (words : List String) : Option Options :=
  (empty.readFrom none words).filter consistent

end Options
end Pseudocode.CommandLine
