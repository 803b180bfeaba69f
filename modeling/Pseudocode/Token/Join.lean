import Pseudocode.Text.Lowercase
import Pseudocode.Token.Piece

/-! Keywords of several words. `TANT QUE` is two names that stand together, and `FIN` before an
opening keyword closes what that keyword opens. A joined token keeps the place of its first word. -/

namespace Pseudocode
set_option autoImplicit false

/-- The keyword that two tokens in a row spell together, if they do. -/
def join? : Token → Token → Option Token
  | .keyword .fin, .keyword .si => some (.keyword .finSi)
  | .keyword .fin, .keyword .pour => some (.keyword .finPour)
  | .keyword .fin, .keyword .tantQue => some (.keyword .finTantQue)
  | .ident first, .ident second =>
    if Text.sameAsciiWord first "tant" && Text.sameAsciiWord second "que" then
      some (.keyword .tantQue)
    else none
  | _, _ => none

/-- Adds a lexeme to those before it, which are given from the last to the first. What it joins to
may join again with what stands before. -/
def push : List Lexeme → Lexeme → List Lexeme
  | [], lexeme => [lexeme]
  | last :: before, lexeme =>
    match join? last.token lexeme.token with
    | some token => push before ⟨token, last.span⟩
    | none => lexeme :: last :: before

/-- The lexemes with every keyword of several words as one token. -/
def joinWords (lexemes : List Lexeme) : List Lexeme :=
  (lexemes.foldl push []).reverse

/-- The tokens of a source with their places, or the first lexical error. -/
def tokenize (source : String) : Except LexError (List Lexeme) :=
  (pieces source).map fun pieces => joinWords (pieces.filterMap Piece.lexeme?)

end Pseudocode
