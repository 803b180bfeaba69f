import Pseudocode.Grammar.Parser
import Pseudocode.Program

/-! Expressions. The operators between operands have five levels, each of which groups from the left;
those in front of an operand bind tighter than all of them. The number that the parsers carry bounds
how deep they go; one more than the number of tokens is always enough. -/

namespace Pseudocode.Parser
set_option autoImplicit false

/-- What follows an operand on one level: operators of that level with their right operands. -/
def chain (operand : Parser Expr) (level : Nat) : Nat → Expr → Parser Expr
  | 0, left => return left
  | bound + 1, left => do
    match ← peek? with
    | some ⟨.op op, span⟩ =>
      if op.level = level then
        let _ ← next?
        let right ← operand
        chain operand level bound (.binary left op right span.line)
      else return left
    | _ => return left

/-- The levels below `level`, from the operands of the tightest one up. -/
def binary (operand : Parser Expr) (bound : Nat) : Nat → Parser Expr
  | 0 => operand
  | level + 1 => do
    let left ← binary operand bound level
    chain (binary operand bound level) level bound left

/-- A literal, a name, a call or an expression in parentheses. -/
def primary (expression : Parser Expr) (bound : Nat) : Parser Expr := do
  match ← next? with
  | some ⟨.literal value, span⟩ => return .literal value span.line
  | some ⟨.ident name, span⟩ =>
    if ← accept (.punct .lparen) then
      if ← accept (.punct .rparen) then return .call name [] span.line
      else return .call name (← itemsToClose expression bound) span.line
    else return .var name span.line
  | some ⟨.punct .lparen, _⟩ =>
    let inner ← expression
    expect (.punct .rparen)
    return inner
  | found => unexpected .expression found

/-- Operators in front of an operand, and the operand. -/
def prefixed (expression : Parser Expr) : Nat → Parser Expr
  | 0 => unexpected .expression none
  | bound + 1 => do
    match ← peek? with
    | some ⟨.op .sub, span⟩ =>
      let _ ← next?
      return .unary .negate (← prefixed expression bound) span.line
    | some ⟨.keyword .non, span⟩ =>
      let _ ← next?
      return .unary .not (← prefixed expression bound) span.line
    | _ => primary expression bound

/-- An expression, nested at most as deep as the bound. -/
def expressionWithin : Nat → Parser Expr
  | 0 => unexpected .expression none
  | bound + 1 =>
    binary (prefixed (expressionWithin bound) (bound + 1)) (bound + 1) BinOp.levels

/-- An expression. -/
def expression : Parser Expr := do
  expressionWithin ((← get).length + 1)

end Pseudocode.Parser
