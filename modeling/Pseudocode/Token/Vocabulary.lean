import Pseudocode.Token

/-! The fixed spellings of the language. Words are recognised in any letter case, except the
one-letter word that bounds a `POUR`, so that a small `a` stays a name; symbols are exact. -/

namespace Pseudocode
set_option autoImplicit false

/-! ## What the reference lists -/

/-- The keywords, in the order of the reference. -/
def keywordTokens : List Token :=
  [Keyword.algorithme, .constantes, .vars, .debut, .fin, .si, .alors, .sinon, .finSi, .pour,
    .de, .a, .pas, .faire, .finPour, .tantQue, .finTantQue, .repeter, .jusqua, .fonction,
    .procedure, .retourner, .lire, .ecrire].map Token.keyword ++
  [.literal (.boolean true), .literal (.boolean false)]

/-- The operators and marks, in the order of the reference. -/
def operatorTokens : List Token :=
  [.punct .assign, .op .add, .op .sub, .op .mul, .op .div, .op .intDiv, .op .mod, .op .equal,
    .op .notEqual, .op .less, .op .greater, .op .lessEqual, .op .greaterEqual, .op .and, .op .or,
    .keyword .non, .punct .lparen, .punct .rparen, .punct .comma, .punct .colon, .punct .semicolon]

/-- Other accepted spellings, in the order of the reference. -/
def aliases : List (String × Token) :=
  [("PROGRAMME", .keyword .algorithme),
   ("DÉBUT", .keyword .debut),
   ("FIN SI", .keyword .finSi),
   ("À", .keyword .a),
   ("FIN POUR", .keyword .finPour),
   ("TANTQUE", .keyword .tantQue),
   ("FIN TANT QUE", .keyword .finTantQue),
   ("FINTQ", .keyword .finTantQue),
   ("RÉPÉTER", .keyword .repeter),
   ("JUSQU'À", .keyword .jusqua),
   ("JUSQUA", .keyword .jusqua),
   ("PROCÉDURE", .keyword .procedure),
   ("ÉCRIRE", .keyword .ecrire),
   ("AFFICHER", .keyword .ecrire),
   ("←", .punct .assign),
   (":=", .punct .assign),
   ("==", .op .equal),
   ("!=", .op .notEqual),
   ("RÉEL", .type .reel),
   ("CHAÎNE", .type .chaine),
   ("BOOLÉEN", .type .booleen),
   ("CARACTÈRE", .type .caractere)]

/-! ## What stands in a source -/

/-- The small letter that stands for a character when letter case does not count. A long s is an s
here. -/
def foldCase (c : Char) : Char :=
  if c = 'ſ' then 's'
  else if 'À' ≤ c ∧ c ≤ 'Þ' ∧ c ≠ '×' then Char.ofNat (c.toNat + 32)
  else c.toLower

/-- The words that are recognised in any letter case, in small letters. -/
def words : List (String × Token) :=
  [("vrai", .literal (.boolean true)),
   ("faux", .literal (.boolean false)),
   ("entier", .type .entier),
   ("reel", .type .reel),
   ("réel", .type .reel),
   ("chaine", .type .chaine),
   ("chaîne", .type .chaine),
   ("booleen", .type .booleen),
   ("booléen", .type .booleen),
   ("caractere", .type .caractere),
   ("caractère", .type .caractere),
   ("algorithme", .keyword .algorithme),
   ("programme", .keyword .algorithme),
   ("constantes", .keyword .constantes),
   ("variables", .keyword .vars),
   ("debut", .keyword .debut),
   ("début", .keyword .debut),
   ("fin", .keyword .fin),
   ("si", .keyword .si),
   ("alors", .keyword .alors),
   ("sinon", .keyword .sinon),
   ("finsi", .keyword .finSi),
   ("pour", .keyword .pour),
   ("de", .keyword .de),
   ("pas", .keyword .pas),
   ("faire", .keyword .faire),
   ("finpour", .keyword .finPour),
   ("tantque", .keyword .tantQue),
   ("fintantque", .keyword .finTantQue),
   ("fintq", .keyword .finTantQue),
   ("repeter", .keyword .repeter),
   ("répéter", .keyword .repeter),
   ("jusqu'a", .keyword .jusqua),
   ("jusqu'à", .keyword .jusqua),
   ("jusqu’a", .keyword .jusqua),
   ("jusqua", .keyword .jusqua),
   ("fonction", .keyword .fonction),
   ("procedure", .keyword .procedure),
   ("procédure", .keyword .procedure),
   ("retourner", .keyword .retourner),
   ("lire", .keyword .lire),
   ("ecrire", .keyword .ecrire),
   ("écrire", .keyword .ecrire),
   ("afficher", .keyword .ecrire),
   ("mod", .op .mod),
   ("div", .op .intDiv),
   ("et", .op .and),
   ("ou", .op .or),
   ("non", .keyword .non)]

/-- The spellings that are recognised exactly as they stand. -/
def symbols : List (String × Token) :=
  [("A", .keyword .a),
   ("À", .keyword .a),
   ("à", .keyword .a),
   ("<-", .punct .assign),
   ("←", .punct .assign),
   (":=", .punct .assign),
   ("=", .op .equal),
   ("==", .op .equal),
   ("<>", .op .notEqual),
   ("!=", .op .notEqual),
   ("<=", .op .lessEqual),
   (">=", .op .greaterEqual),
   ("<", .op .less),
   (">", .op .greater),
   ("+", .op .add),
   ("-", .op .sub),
   ("*", .op .mul),
   ("/", .op .div),
   ("(", .punct .lparen),
   (")", .punct .rparen),
   (",", .punct .comma),
   (":", .punct .colon),
   (";", .punct .semicolon),
   ("\n", .newline)]

/-- A fixed spelling: its characters, whether letter case counts, and what it spells. -/
structure Spelling where
  text : List Char
  exact : Bool
  token : Token

/-- All fixed spellings. -/
def vocabulary : List Spelling :=
  words.map (fun (text, token) => ⟨text.toList, false, token⟩) ++
    symbols.map (fun (text, token) => ⟨text.toList, true, token⟩)

/-- Whether a text starts with the characters of `text`, compared by `same`. -/
def startsWith (same : Char → Char → Bool) : List Char → List Char → Bool
  | [], _ => true
  | _ :: _, [] => false
  | t :: text, c :: cs => same t c && startsWith same text cs

/-- Whether a spelling stands at the front of a text. -/
def Spelling.stands (spelling : Spelling) (cs : List Char) : Bool :=
  if spelling.exact then startsWith (fun t c => t == c) spelling.text cs
  else startsWith (fun t c => t == foldCase c) spelling.text cs

end Pseudocode
