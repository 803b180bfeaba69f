import Pseudocode.Builtin
import Pseudocode.Machine
import Pseudocode.Token.Vocabulary

/-! The reference of the language: its words, types, operators and built-in functions, and the
budgets of a run. -/

namespace Pseudocode
set_option autoImplicit false

/-- A text with blanks behind it up to the given width. -/
def padRight (width : Nat) (s : String) : String :=
  s ++ String.ofList (List.replicate (width - s.length) ' ')

/-- A part of the reference: its title and its lines, set in by two blanks. -/
def referencePart (title : String) (lines : List String) : List String :=
  title :: lines.map ("  " ++ ·)

/-- The parts of the reference. -/
def referenceParts : List (List String) :=
  [referencePart "Keywords" (keywordTokens.filterMap Token.spelling?),
   referencePart "Types" (Ty.all.map Ty.keyword),
   referencePart "Operators" [String.intercalate "  " (operatorTokens.filterMap Token.spelling?)],
   referencePart "Alternative spellings"
     (aliases.filterMap fun (spelling, token) =>
       token.spelling?.map fun canonical => padRight 14 spelling ++ " " ++ canonical),
   referencePart "Built-in functions"
     (Builtin.all.map fun builtin => padRight 52 builtin.signature ++ " " ++ builtin.summary),
   referencePart "Limits"
     [toString Limits.standard.maxSteps ++ " loop iterations and routine calls per run",
      toString Limits.standard.maxDepth ++ " nested routine calls"]]

/-- The text of the reference, with an empty line between its parts. -/
def reference : String :=
  String.intercalate "\n"
    (referenceParts.map fun lines => String.join (lines.map (· ++ "\n")))

end Pseudocode
