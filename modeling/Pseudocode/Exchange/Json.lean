/-! JSON documents, which programs arrive in and results leave in. -/

namespace Pseudocode.Exchange
set_option autoImplicit false

/-- The content of a string in a document. There is none when an escape stands for half of a
character. -/
abbrev Content := Option String

/-- A document. Numbers are kept as they are written, and the members of an object in their order,
repeated names included. -/
inductive Json where
  | null
  | bool (b : Bool)
  | number (numeral : String)
  | string (content : Content)
  | array (items : List Json)
  | object (members : List (Content × Json))

/-- A string with the given content. -/
def Json.ofText (s : String) : Json := .string (some s)

/-! ## Characters -/

/-- Whether a character is white space between the parts of a document. -/
def isJsonSpace (c : Char) : Bool := c == ' ' || c == '\n' || c == '\t' || c == '\r'

/-- The value of a hexadecimal digit. -/
def hexValue? (c : Char) : Option Nat :=
  if '0' ≤ c ∧ c ≤ '9' then some (c.toNat - '0'.toNat)
  else if 'a' ≤ c ∧ c ≤ 'f' then some (c.toNat - 'a'.toNat + 10)
  else if 'A' ≤ c ∧ c ≤ 'F' then some (c.toNat - 'A'.toNat + 10)
  else none

/-- Whether a code stands for the first half of a character. -/
def isHighHalf (n : Nat) : Bool := 0xD800 ≤ n && n ≤ 0xDBFF

/-- Whether a code stands for the second half of a character. -/
def isLowHalf (n : Nat) : Bool := 0xDC00 ≤ n && n ≤ 0xDFFF

/-- The characters of a row of codes, in which two halves in a row are one character. -/
def assemble : List Nat → Option (List Char)
  | [] => some []
  | [n] => if isHighHalf n || isLowHalf n then none else some [Char.ofNat n]
  | n :: k :: rest =>
    if isHighHalf n && isLowHalf k then
      (assemble rest).map (Char.ofNat (0x10000 + (n - 0xD800) * 0x400 + (k - 0xDC00)) :: ·)
    else if isHighHalf n || isLowHalf n then none
    else (assemble (k :: rest)).map (Char.ofNat n :: ·)

end Pseudocode.Exchange
