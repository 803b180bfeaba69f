import Pseudocode.Exchange.Json

/-! Documents read from text. The whole text must be one document, with white space around its
parts. -/

namespace Pseudocode.Exchange
set_option autoImplicit false

/-- A reader takes characters from the front of a text and leaves the rest, or there is nothing it
could read. -/
abbrev Reader (α : Type) := StateT (List Char) Option α

namespace Reader

/-! ## Characters -/

/-- Nothing can be read. -/
def fail {α : Type} : Reader α := fun _ => none

/-- The next character, which is taken. -/
def next : Reader Char
  | [] => none
  | c :: cs => some (c, cs)

/-- The next character that is not white space, which stays, or none at the end. -/
def peekPart? : Reader (Option Char) := fun cs =>
  let rest := cs.dropWhile isJsonSpace
  some (rest.head?, rest)

/-- Takes the given characters. -/
def word : List Char → Reader Unit
  | [] => pure ()
  | c :: cs => do if (← next) = c then word cs else fail

/-- Takes characters as long as they are digits, and at least one. -/
def digits : Reader (List Char) := fun cs =>
  let taken := cs.takeWhile Char.isDigit
  if taken.isEmpty then none else some (taken, cs.dropWhile Char.isDigit)

/-! ## Strings -/

/-- A code of four hexadecimal digits. -/
def hexCode? (a b c d : Char) : Option Nat := do
  return (((← hexValue? a) * 16 + (← hexValue? b)) * 16 + (← hexValue? c)) * 16 + (← hexValue? d)

/-- The code of the character that follows a backslash. -/
def escapeCode? (c : Char) : Option Nat :=
  if c = '"' then some '"'.toNat
  else if c = '\\' then some '\\'.toNat
  else if c = '/' then some '/'.toNat
  else if c = 'b' then some 8
  else if c = 'f' then some 12
  else if c = 'n' then some 10
  else if c = 'r' then some 13
  else if c = 't' then some 9
  else none

/-- The codes of a string after its opening quote, and what follows its closing one. -/
def stringCodes : List Char → Option (List Nat × List Char)
  | '"' :: rest => some ([], rest)
  | '\\' :: 'u' :: a :: b :: c :: d :: rest => do
    let code ← hexCode? a b c d
    let (codes, rest) ← stringCodes rest
    return (code :: codes, rest)
  | '\\' :: c :: rest => do
    let code ← escapeCode? c
    let (codes, rest) ← stringCodes rest
    return (code :: codes, rest)
  | c :: rest =>
    if c.toNat < 0x20 ∨ c = '\\' then none
    else do
      let (codes, rest) ← stringCodes rest
      return (c.toNat :: codes, rest)
  | [] => none

/-- The content of a string after its opening quote. -/
def content : Reader Content := fun cs => do
  let (codes, rest) ← stringCodes cs
  return ((assemble codes).map String.ofList, rest)

/-! ## Numbers -/

/-- A part of a number that is there only after the given marks. -/
def optionalPart (marks : List Char) (part : Char → Reader (List Char)) : Reader (List Char) :=
  fun cs => match cs with
    | c :: rest => if marks.contains c then part c rest else some ([], cs)
    | [] => some ([], cs)

/-- The digits before the point: a zero stands alone. -/
def whole : Reader (List Char) := do
  let taken ← digits
  if taken.length > 1 ∧ taken.head? = some '0' then fail else return taken

/-- A number as it is written. -/
def numeral : Reader String := do
  let sign ← optionalPart ['-'] fun c => return [c]
  let whole ← whole
  let fraction ← optionalPart ['.'] fun c => return c :: (← digits)
  let exponent ← optionalPart ['e', 'E'] fun c => do
    let sign ← optionalPart ['+', '-'] fun c => return [c]
    return c :: (sign ++ (← digits))
  return String.ofList (sign ++ whole ++ fraction ++ exponent)

/-! ## Documents

The numbers bound the depth and the length; one more than the length of the text is always enough. -/

/-- The items of an array or the members of an object, up to the given closing character. -/
def itemsTo {α : Type} (close : Char) (item : Reader α) : Nat → Reader (List α)
  | 0 => fail
  | bound + 1 => do
    let first ← item
    let mark ← peekPart?
    if mark = some ',' then
      let _ ← next
      return first :: (← itemsTo close item bound)
    else if mark = some close then
      let _ ← next
      return [first]
    else fail

/-- What follows an opening bracket: nothing but the closing one, or items. -/
def list {α : Type} (close : Char) (item : Reader α) (bound : Nat) : Reader (List α) := do
  if (← peekPart?) = some close then
    let _ ← next
    return []
  else itemsTo close item bound

/-- A member of an object. -/
def member (value : Reader Json) : Reader (Content × Json) := do
  if (← peekPart?) = some '"' then
    let _ ← next
    let name ← content
    if (← peekPart?) = some ':' then
      let _ ← next
      return (name, ← value)
    else fail
  else fail

/-- A document, nested at most as deep as the bound. -/
def valueWithin : Nat → Reader Json
  | 0 => fail
  | bound + 1 => do
    match ← peekPart? with
    | some 'n' => do word ['n', 'u', 'l', 'l']; return .null
    | some 't' => do word ['t', 'r', 'u', 'e']; return .bool true
    | some 'f' => do word ['f', 'a', 'l', 's', 'e']; return .bool false
    | some '"' => do let _ ← next; return .string (← content)
    | some '[' => do let _ ← next; return .array (← list ']' (valueWithin bound) bound)
    | some '\x7b' => do let _ ← next; return .object (← list '\x7d' (member (valueWithin bound)) bound)
    | _ => return .number (← numeral)

end Reader

/-- The document that a text is. -/
def Json.read? (text : String) : Option Json := do
  let (json, rest) ← Reader.valueWithin (text.toList.length + 1) text.toList
  if rest.all isJsonSpace then some json else none

end Pseudocode.Exchange
