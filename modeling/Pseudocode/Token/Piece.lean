import Pseudocode.Token.Error
import Pseudocode.Token.Vocabulary
import Pseudocode.Number.Decimal

/-! A source cut into pieces: tokens, and the blanks and comments between them. At every place the
longest reading wins, and among readings of one length a fixed spelling. -/

namespace Pseudocode
set_option autoImplicit false

/-! ## Readings -/

/-- What a stretch of source stands for. -/
inductive Meaning where
  | token (token : Token)
  /-- Blanks and comments. -/
  | skipped
  /-- A literal that has the form of one and no value. -/
  | refused (cause : LexCause)

/-- A way to read the first `length` characters of a text. -/
structure Reading where
  length : Nat
  meaning : Meaning

/-- A fixed spelling at the front of a text. -/
def Spelling.reading? (spelling : Spelling) (cs : List Char) : Option Reading :=
  if spelling.stands cs then some ⟨spelling.text.length, .token spelling.token⟩ else none

/-! ## Literals -/

/-- An integer literal, by its digits. -/
def integerMeaning (digits : List Char) : Meaning :=
  match Entier.ofInt? (Decimal.value digits) with
  | some n => .token (.literal (.integer n))
  | none => .refused (.integerTooLarge (String.ofList digits))

/-- A number at the front of a text: digits, and a point only when digits follow it. -/
def number? (cs : List Char) : Option Reading :=
  let whole := cs.takeWhile Char.isDigit
  if whole.isEmpty then none
  else
    let fraction := match cs.dropWhile Char.isDigit with
      | '.' :: rest => rest.takeWhile Char.isDigit
      | _ => []
    if fraction.isEmpty then some ⟨whole.length, integerMeaning whole⟩
    else
      let value := Reel.ofDecimal false (Decimal.value (whole ++ fraction)) fraction.length
      some ⟨whole.length + 1 + fraction.length, .token (.literal (.real value))⟩

/-- The character that a backslash and `c` stand for. -/
def unescape (c : Char) : Char :=
  if c = 'n' then '\n' else if c = 't' then '\t' else c

/-- The content of a string after its opening quote, up to the closing one on the same line, and
the number of characters it takes with that quote. -/
def stringBody : List Char → Option (List Char × Nat)
  | [] => none
  | '"' :: _ => some ([], 1)
  | '\n' :: _ => none
  | ['\\'] => none
  | '\\' :: c :: rest =>
    if c = '\n' then none
    else (stringBody rest).map fun (text, length) => (unescape c :: text, length + 2)
  | c :: rest => (stringBody rest).map fun (text, length) => (c :: text, length + 1)

/-- A string literal at the front of a text. -/
def string? : List Char → Option Reading
  | '"' :: rest => (stringBody rest).map fun (text, length) =>
      ⟨length + 1, .token (.literal (.string (String.ofList text)))⟩
  | _ => none

/-- A character literal at the front of a text. -/
def character? : List Char → Option Reading
  | '\'' :: '\\' :: c :: '\'' :: _ =>
    if c = '\n' then none else some ⟨4, .token (.literal (.character (unescape c)))⟩
  | '\'' :: c :: '\'' :: _ =>
    if c = '\n' ∨ c = '\\' ∨ c = '\'' then none else some ⟨3, .token (.literal (.character c))⟩
  | _ => none

/-! ## Names, comments and blanks -/

/-- Whether a name may start with the character: a letter, accented or not. -/
def isNameStart (c : Char) : Bool :=
  c.isAlpha || ('À' ≤ c && c ≤ 'ÿ' && c != '×' && c != '÷')

/-- Whether a name may go on with the character. -/
def isNameRest (c : Char) : Bool :=
  isNameStart c || c.isDigit || c == '_'

/-- A name at the front of a text. -/
def name? : List Char → Option Reading
  | [] => none
  | c :: rest =>
    if isNameStart c then
      let name := c :: rest.takeWhile isNameRest
      some ⟨name.length, .token (.ident (String.ofList name))⟩
    else none

/-- The number of characters up to the end of the line. -/
def lineLength (cs : List Char) : Nat :=
  (cs.takeWhile (· != '\n')).length

/-- The number of characters up to and with the mark that closes a comment, if there is one. -/
def commentLength : List Char → Option Nat
  | [] => none
  | '*' :: '/' :: _ => some 2
  | _ :: rest => (commentLength rest).map (· + 1)

/-- A comment at the front of a text. Without its closing mark, an opening one is no comment. -/
def comment? : List Char → Option Reading
  | '#' :: rest => some ⟨1 + lineLength rest, .skipped⟩
  | '/' :: '/' :: rest => some ⟨2 + lineLength rest, .skipped⟩
  | '/' :: '*' :: rest => (commentLength rest).map fun length => ⟨length + 2, .skipped⟩
  | _ => none

/-- Whether a character only separates tokens. A line feed is a token. -/
def isSpace (c : Char) : Bool :=
  c == ' ' || c == '\t' || c == '\x0c' || c == '\r'

/-- Blanks at the front of a text. -/
def spaces? (cs : List Char) : Option Reading :=
  let blanks := cs.takeWhile isSpace
  if blanks.isEmpty then none else some ⟨blanks.length, .skipped⟩

/-! ## The longest reading -/

/-- All readings of the front of a text, fixed spellings first. -/
def readings (cs : List Char) : List Reading :=
  vocabulary.filterMap (·.reading? cs) ++
    [name?, number?, string?, character?, comment?, spaces?].filterMap (· cs)

/-- The longest reading, the first one among equals. -/
def longest : List Reading → Option Reading
  | [] => none
  | r :: rs => match longest rs with
    | none => some r
    | some s => if r.length < s.length then some s else some r

/-- Why a text that starts with `c` has no reading. -/
def causeAt (c : Char) : LexCause :=
  if c = '"' then .unterminatedString
  else if c = '\'' then .malformedCharacter
  else .unrecognized c

/-! ## Pieces -/

/-- A stretch of source: its text, the token it stands for unless it is skipped, and its place. -/
structure Piece where
  text : List Char
  token? : Option Token
  span : Span

/-- The token of a piece with its place. -/
def Piece.lexeme? (piece : Piece) : Option Lexeme :=
  piece.token?.map fun token => ⟨token, piece.span⟩

/-! ## Places -/

/-- The line that a place is on, and the number of characters before that line. -/
structure LineMark where
  line : Nat
  start : Nat
deriving DecidableEq, Repr

/-- The index of the last line feed of a text. -/
def lastFeed? : List Char → Option Nat
  | [] => none
  | c :: cs => match lastFeed? cs with
    | some last => some (last + 1)
    | none => if c = '\n' then some 0 else none

namespace LineMark

/-- The mark of the first line. -/
def first : LineMark := ⟨1, 0⟩

/-- The place of the character that `offset` others stand before. -/
def position (mark : LineMark) (offset : Nat) : Span := ⟨mark.line, offset - mark.start + 1⟩

/-- The mark after a comment between two marks, which starts at `offset`. It may end lines. -/
def passComment (mark : LineMark) (offset : Nat) (comment : List Char) : LineMark :=
  match lastFeed? comment with
  | some last => ⟨mark.line + comment.count '\n', offset + last + 1⟩
  | none => mark

/-- The mark after a text that starts at `offset`. Only a line feed that is a token and a comment
between two marks can end a line. -/
def pass (mark : LineMark) (offset : Nat) (text : List Char) : Meaning → LineMark
  | .token .newline => ⟨mark.line + 1, offset + text.length⟩
  | .skipped => if text.take 2 = ['/', '*'] then mark.passComment offset text else mark
  | _ => mark

end LineMark

/-! ## Pieces of a source -/

/-- The pieces of the text behind `offset` characters, of which `skip` more belong to the piece
before it. -/
def scan (mark : LineMark) (offset : Nat) : Nat → List Char → Except LexError (List Piece)
  | _, [] => .ok []
  | skip + 1, _ :: cs => scan mark (offset + 1) skip cs
  | 0, c :: cs =>
    match longest (readings (c :: cs)) with
    | none => .error ⟨causeAt c, mark.position offset⟩
    | some ⟨_, .refused cause⟩ => .error ⟨cause, mark.position offset⟩
    | some ⟨length, .skipped⟩ => do
      let text := (c :: cs).take length
      let rest ← scan (mark.pass offset text .skipped) (offset + 1) (length - 1) cs
      return ⟨text, none, mark.position offset⟩ :: rest
    | some ⟨length, .token token⟩ => do
      let text := (c :: cs).take length
      let rest ← scan (mark.pass offset text (.token token)) (offset + 1) (length - 1) cs
      return ⟨text, some token, mark.position offset⟩ :: rest

/-- The pieces of a source. -/
def pieces (source : String) : Except LexError (List Piece) :=
  scan .first 0 0 source.toList

end Pseudocode
