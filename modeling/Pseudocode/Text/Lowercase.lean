import Pseudocode.Text.CaseTable

/-! Small letters of a text. Every capital becomes its small letter; two rules look further than one
character for one: the dotted capital I becomes two characters, and a capital sigma that ends a word
takes its final form. -/

namespace Pseudocode.Text
set_option autoImplicit false

/-! ## Single characters -/

/-- Whether a row of `lowerTable` covers the code point `n`. -/
def covers (n : Nat) : Nat × Nat × Nat × Int → Bool
  | (first, last, stride, _) => first ≤ n && n ≤ last && (n - first) % stride == 0

/-- The small letter of a character, when it is a single character; other characters stay. -/
def lowerChar (c : Char) : Char :=
  if c.toNat < 128 then c.toLower
  else match lowerTable.find? (covers c.toNat) with
    | some (_, _, _, distance) => Char.ofNat (Int.toNat (c.toNat + distance))
    | none => c

/-- Whether a table of ranges holds the character. -/
def inRanges (table : List (Nat × Nat)) (c : Char) : Bool :=
  table.any fun (first, last) => first ≤ c.toNat && c.toNat ≤ last

/-! ## Sigma at the end of a word -/

/-- Whether the first character of `cs` that counts is a letter with a case. -/
def startsCased (cs : List Char) : Bool :=
  match cs.dropWhile (inRanges ignorableTable) with
  | [] => false
  | c :: _ => inRanges casedTable c

/-- Whether a sigma ends a word: a letter comes before it and none after it. The characters before
it are given from the nearest to the farthest. -/
def endsWord (before after : List Char) : Bool :=
  startsCased before && !startsCased after

/-! ## Whole texts -/

/-- The small letters of `c`, standing between two texts. -/
def lowerAt (before : List Char) (c : Char) (after : List Char) : List Char :=
  if c = 'Σ' then [if endsWord before after then 'ς' else 'σ']
  else if c = 'İ' then ['i', Char.ofNat 0x307]
  else [lowerChar c]

/-- `lowercase`, after the characters of `before`, nearest first. -/
def lowercaseAfter (before : List Char) : List Char → List Char
  | [] => []
  | c :: after => lowerAt before c after ++ lowercaseAfter (c :: before) after

/-- The small letters of a text. -/
def lowercase (cs : List Char) : List Char :=
  lowercaseAfter [] cs

/-- The key a name is looked up by: names that differ only in letter case are one name. -/
def nameKey (name : String) : String :=
  String.ofList (lowercase name.toList)

/-- Whether two words are the same up to the case of their ASCII letters. -/
def sameAsciiWord (a b : String) : Bool :=
  a.toList.map Char.toLower == b.toList.map Char.toLower

end Pseudocode.Text
