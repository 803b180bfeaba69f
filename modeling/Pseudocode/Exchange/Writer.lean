import Pseudocode.Exchange.Json

/-! Documents written out, in one line or with two blanks for every level. -/

namespace Pseudocode.Exchange
set_option autoImplicit false

/-! ## Strings -/

/-- The hexadecimal digit of a number below sixteen. -/
def hexDigit (n : Nat) : Char := Nat.digitChar n

/-- A character inside a string. Quotes, backslashes and control characters are escaped. -/
def escapeChar (c : Char) : List Char :=
  if c = '"' then ['\\', '"']
  else if c = '\\' then ['\\', '\\']
  else if c = '\x08' then ['\\', 'b']
  else if c = '\t' then ['\\', 't']
  else if c = '\n' then ['\\', 'n']
  else if c = '\x0c' then ['\\', 'f']
  else if c = '\r' then ['\\', 'r']
  else if c.toNat < 0x20 then
    ['\\', 'u', '0', '0', hexDigit (c.toNat / 16), hexDigit (c.toNat % 16)]
  else [c]

/-- A string with its quotes. One without content is written as half of a character. -/
def writeContent : Content → List Char
  | some s => '"' :: (s.toList.flatMap escapeChar ++ ['"'])
  | none => ['"', '\\', 'u', 'd', '8', '0', '0', '"']

/-! ## Layouts -/

/-- How the parts of a document are set apart. -/
structure Layout where
  /-- What stands in front of a part at the given level. -/
  lead : Nat → List Char
  /-- What stands between a name and its value. -/
  colon : List Char

/-- Everything in one line. -/
def Layout.compact : Layout := ⟨fun _ => [], [':']⟩

/-- Every part in a line of its own. -/
def Layout.pretty : Layout := ⟨fun level => '\n' :: List.replicate (2 * level) ' ', [':', ' ']⟩

mutual

/-- A document at the given level. -/
def writeAt (layout : Layout) (level : Nat) : Json → List Char
  | .null => ['n', 'u', 'l', 'l']
  | .bool true => ['t', 'r', 'u', 'e']
  | .bool false => ['f', 'a', 'l', 's', 'e']
  | .number numeral => numeral.toList
  | .string content => writeContent content
  | .array [] => ['[', ']']
  | .array (first :: rest) =>
    '[' :: (layout.lead (level + 1) ++ writeAt layout (level + 1) first ++
      writeItems layout (level + 1) rest ++ layout.lead level ++ [']'])
  | .object [] => ['\x7b', '\x7d']
  | .object ((name, value) :: rest) =>
    '\x7b' :: (layout.lead (level + 1) ++ writeContent name ++ layout.colon ++
      writeAt layout (level + 1) value ++ writeMembers layout (level + 1) rest ++
      layout.lead level ++ ['\x7d'])

/-- The items of an array after the first one. -/
def writeItems (layout : Layout) (level : Nat) : List Json → List Char
  | [] => []
  | item :: rest =>
    ',' :: (layout.lead level ++ writeAt layout level item ++ writeItems layout level rest)

/-- The members of an object after the first one. -/
def writeMembers (layout : Layout) (level : Nat) : List (Content × Json) → List Char
  | [] => []
  | (name, value) :: rest =>
    ',' :: (layout.lead level ++ writeContent name ++ layout.colon ++ writeAt layout level value ++
      writeMembers layout level rest)

end

/-- A document written out. -/
def Json.write (layout : Layout) (json : Json) : String := String.ofList (writeAt layout 0 json)

end Pseudocode.Exchange
