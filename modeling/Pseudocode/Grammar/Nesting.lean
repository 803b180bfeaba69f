import Pseudocode.Grammar.Error

/-! Limits on the depth of a program, checked on the row of tokens before it is parsed. Open blocks,
open parentheses and a run of operators in front of an operand each add to the depth, and the
operators of a line are counted. -/

namespace Pseudocode
set_option autoImplicit false

/-- The deepest nesting of a program. -/
def maxNesting : Nat := 100

/-- The most operators on a line. -/
def maxLineOperators : Nat := 1000

/-- What is open after a part of a program. -/
structure Depth where
  blocks : Nat
  parens : Nat
  /-- The length of the run of operators that may stand in front of an operand. -/
  prefixes : Nat
  /-- The operators of the line so far. -/
  operators : Nat
  /-- Whether the first line of a `POUR` is open, where `JUSQU'A` closes no block. -/
  forHeader : Bool
deriving DecidableEq, Repr

namespace Depth

/-- Nothing is open. -/
def zero : Depth := ⟨0, 0, 0, 0, false⟩

/-- What a token opens or closes. -/
def structureStep (depth : Depth) : Token → Depth
  | .punct .lparen => { depth with parens := depth.parens + 1 }
  | .punct .rparen => { depth with parens := depth.parens - 1 }
  | .keyword .si | .keyword .tantQue | .keyword .repeter =>
    { depth with blocks := depth.blocks + 1 }
  | .keyword .pour => { depth with blocks := depth.blocks + 1, forHeader := true }
  | .keyword .jusqua => if depth.forHeader then depth else { depth with blocks := depth.blocks - 1 }
  | .keyword .finSi | .keyword .finPour | .keyword .finTantQue =>
    { depth with blocks := depth.blocks - 1 }
  | .keyword .faire => { depth with forHeader := false }
  | .newline | .punct .semicolon => { depth with operators := 0, forHeader := false }
  | _ => depth

/-- Whether a token may stand in front of an operand as its operator. -/
def isPrefix : Token → Bool
  | .op .sub | .keyword .non => true
  | _ => false

/-- What is open after one more token. -/
def step (depth : Depth) (token : Token) : Depth :=
  let next := depth.structureStep token
  { next with
    prefixes := if isPrefix token then depth.prefixes + 1 else 0
    operators := if token.isOperator then next.operators + 1 else next.operators }

/-- What all that is open adds up to. -/
def total (depth : Depth) : Nat := depth.blocks + depth.parens + depth.prefixes

/-- Checks the tokens that follow what is open, and fails at the first one past a limit. -/
def check (depth : Depth) : List Lexeme → Except SyntaxError Unit
  | [] => .ok ()
  | ⟨token, span⟩ :: rest =>
    let next := depth.step token
    if maxNesting < next.total then .error ⟨.nestingTooDeep maxNesting, span.line⟩
    else if maxLineOperators < next.operators then
      .error ⟨.tooManyOperators maxLineOperators, span.line⟩
    else next.check rest

end Depth

/-- Fails on the line of the first token that exceeds a limit. -/
def checkNesting (lexemes : List Lexeme) : Except SyntaxError Unit :=
  Depth.zero.check lexemes

end Pseudocode
