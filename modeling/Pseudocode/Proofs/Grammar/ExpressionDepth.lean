import Pseudocode.Proofs.Grammar.Scan

/-! # The size of an expression and what the check counts of it

An expression is read without a separator in between, so all its operators are counted on one line,
and while the arguments of a call are read its parenthesis is open.

* `Expr.operators`, `Expr.callDepth`, `Expr.depth`: three sizes of a tree.
* `Expr.Fits`: the tree is no larger than what was counted while it was read.
* `leads_expression`: this holds of every expression that is parsed. -/

namespace Pseudocode
set_option autoImplicit false

/-! ## Sizes -/

mutual

/-- The number of operators in an expression. -/
def Expr.operators : Expr → Nat
  | .literal _ _ | .var _ _ => 0
  | .unary _ operand _ => operand.operators + 1
  | .binary left _ right _ => left.operators + right.operators + 1
  | .call _ arguments _ => operatorsAll arguments

/-- The number of operators in expressions together. -/
def operatorsAll : List Expr → Nat
  | [] => 0
  | first :: rest => first.operators + operatorsAll rest

end

mutual

/-- How deep calls stand inside each other in an expression. -/
def Expr.callDepth : Expr → Nat
  | .literal _ _ | .var _ _ => 0
  | .unary _ operand _ => operand.callDepth
  | .binary left _ right _ => max left.callDepth right.callDepth
  | .call _ arguments _ => callDepthAll arguments + 1

/-- The deepest of expressions by their calls. -/
def callDepthAll : List Expr → Nat
  | [] => 0
  | first :: rest => max first.callDepth (callDepthAll rest)

end

mutual

/-- The height of an expression as a tree. -/
def Expr.depth : Expr → Nat
  | .literal _ _ | .var _ _ => 1
  | .unary _ operand _ => operand.depth + 1
  | .binary left _ right _ => max left.depth right.depth + 1
  | .call _ arguments _ => depthAll arguments + 1

/-- The greatest height of expressions. -/
def depthAll : List Expr → Nat
  | [] => 0
  | first :: rest => max first.depth (depthAll rest)

end

mutual

/-- A way down the tree passes operators and calls, and one leaf at its end. -/
theorem Expr.depth_le : ∀ e : Expr, e.depth ≤ e.operators + e.callDepth + 1
  | .literal _ _ => by simp [Expr.depth]
  | .var _ _ => by simp [Expr.depth]
  | .unary _ operand _ => by
    have hoperand := operand.depth_le
    simp only [Expr.depth, Expr.operators, Expr.callDepth]
    omega
  | .binary left _ right _ => by
    have hleft := left.depth_le
    have hright := right.depth_le
    simp only [Expr.depth, Expr.operators, Expr.callDepth]
    omega
  | .call _ arguments _ => by
    have harguments := depthAll_le arguments
    simp only [Expr.depth, Expr.operators, Expr.callDepth]
    omega

theorem depthAll_le : ∀ es : List Expr, depthAll es ≤ operatorsAll es + callDepthAll es + 1
  | [] => by simp [depthAll]
  | first :: rest => by
    have hfirst := first.depth_le
    have hrest := depthAll_le rest
    simp only [depthAll, operatorsAll, callDepthAll]
    omega

end

theorem operatorsAll_eq_totalWeight (es : List Expr) :
    operatorsAll es = Parser.totalWeight Expr.operators es := by
  induction es with
  | nil => rw [operatorsAll, Parser.totalWeight]
  | cons first rest ih => rw [operatorsAll, Parser.totalWeight, ih]

theorem callDepthAll_le {es : List Expr} {n limit : Nat} (hn : n ≤ limit)
    (h : ∀ e ∈ es, n + e.callDepth ≤ limit) : n + callDepthAll es ≤ limit := by
  induction es with
  | nil => simpa [callDepthAll] using hn
  | cons first rest ih =>
    have hfirst := h first List.mem_cons_self
    have hrest := ih fun e he => h e (List.mem_cons_of_mem first he)
    simp only [callDepthAll]
    omega

/-! ## What the check counts -/

/-- Between two places, at least the operators of the expression were counted, and what was open at
the first one leaves room for its calls. -/
structure Expr.Fits (d : Depth) (e : Expr) (d' : Depth) : Prop where
  line : d.Extends e.operators d'
  calls : d.blocks + d.parens + e.callDepth ≤ maxNesting

namespace Expr.Fits
variable {d d' d'' : Depth}

theorem of_extends {n : Nat} {e : Expr} (h : d.Extends n d') (he : e.Fits d' d'') :
    d.Extends (n + e.operators) d'' ∧ d.blocks + d.parens + e.callDepth ≤ maxNesting := by
  have hcalls := he.calls
  rw [h.blocks, h.parens] at hcalls
  exact ⟨h.trans he.line, hcalls⟩

theorem unary {operand : Expr} (h : d.Extends 1 d') (hoperand : operand.Fits d' d'') (op : UnOp)
    (line : Nat) : (Expr.unary op operand line).Fits d d'' := by
  obtain ⟨hline, hcalls⟩ := of_extends h hoperand
  refine ⟨?_, hcalls⟩
  rw [Expr.operators, Nat.add_comm]
  exact hline

theorem binary {left right : Expr} {op : BinOp} (hleft : left.Fits d d')
    (hright : right.Fits (d'.step (.op op)) d'') (line : Nat) :
    (Expr.binary left op right line).Fits d d'' := by
  obtain ⟨hline, hcalls⟩ := of_extends (hleft.line.trans (d'.extends_op op)) hright
  refine ⟨?_, ?_⟩
  · rw [Expr.operators, Nat.add_right_comm]
    exact hline
  · have hleftCalls := hleft.calls
    rw [Expr.callDepth]
    omega

/-- A call fits when its arguments do inside its parenthesis. -/
theorem call {arguments : List Expr}
    (hcloses : (d.step (.punct .lparen)).Closes (Parser.totalWeight Expr.operators arguments) d')
    (hopen : d.blocks + (d.parens + 1) ≤ maxNesting)
    (hcalls : ∀ e ∈ arguments, d.blocks + (d.parens + 1) + e.callDepth ≤ maxNesting)
    (name : String) (line : Nat) : (Expr.call name arguments line).Fits d d' := by
  refine ⟨?_, ?_⟩
  · rw [Expr.operators, operatorsAll_eq_totalWeight]
    exact hcloses.of_lparen
  · have hall := callDepthAll_le hopen hcalls
    rw [Expr.callDepth]
    omega

end Expr.Fits

/-! ## Expressions -/

namespace Parser

section Levels
variable {operand : Parser Expr}
  (hoperand : ∀ s, Leads operand s fun e s' => e.Fits s.depth s'.depth)
include hoperand

/-- What follows an operand adds to the expression that is already there. -/
theorem leads_chain (level bound : Nat) {start : Depth} {left : Expr} {s : Scan}
    (hleft : left.Fits start s.depth) :
    Leads (chain operand level bound left) s fun e s' => e.Fits start s'.depth := by
  induction bound generalizing left s with
  | zero => exact leads_pure hleft
  | succ bound ih =>
    refine leads_peek fun found hfound => ?_
    split
    · split
      · refine (leads_next_of_peek hfound).bind fun _ s₁ hs₁ => ?_
        refine (hoperand s₁).bind fun right s₂ hright => ih ?_
        rw [hs₁] at hright
        exact hleft.binary hright _
      · exact leads_pure hleft
    · exact leads_pure hleft

theorem leads_binary (bound level : Nat) (s : Scan) :
    Leads (binary operand bound level) s fun e s' => e.Fits s.depth s'.depth := by
  induction level generalizing s with
  | zero => exact hoperand s
  | succ level ih => exact (ih s).bind fun left s₁ hleft => leads_chain ih level bound hleft

end Levels

section Operands
variable {inner : Parser Expr}
  (hinner : ∀ s, Leads inner s fun e s' => e.Fits s.depth s'.depth)
include hinner

theorem leads_primary (bound : Nat) (s : Scan) :
    Leads (primary inner bound) s fun e s' => e.Fits s.depth s'.depth := by
  refine (leads_next s).bind fun found s₁ ⟨_, hstep⟩ => ?_
  split
  · -- A literal.
    refine leads_pure ⟨?_, s.blocks_le⟩
    rw [hstep _ rfl]
    exact s.depth.extends_plain rfl
  · -- A name, which may be that of a call.
    have hname : s.depth.Extends 0 s₁.depth := by
      rw [hstep _ rfl]
      exact s.depth.extends_plain rfl
    refine (leads_accept (.punct .lparen) s₁).bind fun taken s₂ ⟨htaken, hleft⟩ => ?_
    cases taken with
    | false =>
      refine leads_pure ⟨?_, s.blocks_le⟩
      rw [hleft rfl]
      exact hname
    | true =>
      have hs₂ := htaken rfl
      have hopen := s₂.blocks_le
      rw [hs₂] at hopen
      have hcall {e : Expr} {s' : Scan} (he : e.Fits s₁.depth s'.depth) :
          e.Fits s.depth s'.depth := by
        obtain ⟨hline, hcalls⟩ := Expr.Fits.of_extends hname he
        rw [Nat.zero_add] at hline
        exact ⟨hline, hcalls⟩
      refine (leads_accept (.punct .rparen) s₂).bind fun taken s₃ ⟨htaken, hleft⟩ => ?_
      cases taken with
      | true =>
        refine leads_pure (hcall (Expr.Fits.call ?_ hopen (fun e he => by cases he) _ _))
        rw [htaken rfl, hs₂]
        exact Depth.closes_rparen _
      | false =>
        refine (leads_itemsToClose Expr.operators (fun n e => n + e.callDepth ≤ maxNesting)
          (fun s => (hinner s).mono fun e s' he => ⟨he.line, he.calls⟩) bound s₃).bind
          fun arguments s₄ ⟨hcloses, hcalls⟩ => ?_
        rw [hleft rfl, hs₂] at hcloses hcalls
        exact leads_pure (hcall (Expr.Fits.call hcloses hopen hcalls _ _))
  · -- An expression in parentheses.
    refine (hinner s₁).bind fun e s₂ he => ?_
    refine (leads_expect (.punct .rparen) s₂).bind fun _ s₃ hs₃ => leads_pure ?_
    rw [hstep _ rfl] at he
    have hcloses := he.line.closes s₂.depth.closes_rparen
    rw [← hs₃] at hcloses
    have hcalls := he.calls
    refine ⟨hcloses.of_lparen, ?_⟩
    simp only [Depth.step, Depth.structureStep] at hcalls
    omega
  · exact leads_unexpected

theorem leads_prefixed (bound : Nat) (s : Scan) :
    Leads (prefixed inner bound) s fun e s' => e.Fits s.depth s'.depth := by
  induction bound generalizing s with
  | zero => exact leads_unexpected
  | succ bound ih =>
    refine leads_peek fun found hfound => ?_
    split
    · refine (leads_next_of_peek hfound).bind fun _ s₁ hs₁ => ?_
      refine (ih s₁).bind fun operand s₂ hoperand => leads_pure (.unary ?_ hoperand _ _)
      rw [hs₁]
      exact s.depth.extends_op .sub
    · refine (leads_next_of_peek hfound).bind fun _ s₁ hs₁ => ?_
      refine (ih s₁).bind fun operand s₂ hoperand => leads_pure (.unary ?_ hoperand _ _)
      rw [hs₁]
      exact s.depth.extends_non
    · exact leads_primary hinner bound s

end Operands

theorem leads_expressionWithin (bound : Nat) (s : Scan) :
    Leads (expressionWithin bound) s fun e s' => e.Fits s.depth s'.depth := by
  induction bound generalizing s with
  | zero => exact leads_unexpected
  | succ bound ih => exact leads_binary (leads_prefixed ih (bound + 1)) (bound + 1) _ s

/-- Every expression that is parsed is no larger than what the check counted while it was read. -/
theorem leads_expression (s : Scan) :
    Leads expression s fun e s' => e.Fits s.depth s'.depth := by
  refine leads_get ?_
  exact leads_expressionWithin _ s

end Parser
end Pseudocode
