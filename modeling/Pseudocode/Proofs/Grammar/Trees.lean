import Pseudocode.Grammar.Layout
import Pseudocode.Proofs.Grammar.Nesting

/-! # Trees of programs

Not every tree is that of a program that can be written down. A `Program` is well formed if no
declared name is that of a built-in function, nothing that has to be named is left without a name,
and every `RETOURNER` fits the routine it stands in.

The line of a node is no part of what is written, so two trees stand for the same program if they
are equal without their lines.

* `Program.WellFormed`, with `ProperBlock` for statements at any depth.
* `Program.unlined`: the tree with all lines set to zero. -/

namespace Pseudocode
set_option autoImplicit false

/-! ## Well-formed programs -/

/-- Whether a value, or none, may be returned in the given routine or in the main block. -/
def Returns : Option RoutineKind → Option Expr → Prop
  | some .function, some _ | some .procedure, none => True
  | _, _ => False

/-- The statement itself may stand in the given routine or in the main block. -/
def Statement.Proper (routine : Option RoutineKind) : Statement → Prop
  | .read targets _ => targets ≠ []
  | .ret value _ => Returns routine value
  | _ => True

/-- All statements of the block, at any depth, may stand in the given routine or in the main
block. -/
def ProperBlock (routine : Option RoutineKind) (block : List Statement) : Prop :=
  ∀ n statement, Encloses block n statement → statement.Proper routine

theorem properBlock_nil (routine : Option RoutineKind) : ProperBlock routine [] := by
  intro n statement h
  cases h with
  | here h => cases h
  | inside h _ _ => cases h

theorem ProperBlock.of_mem {routine : Option RoutineKind} {block : List Statement}
    {statement : Statement} (h : ProperBlock routine block) (hmem : statement ∈ block) :
    statement.Proper routine ∧ ∀ inner ∈ statement.blocks, ProperBlock routine inner :=
  ⟨h 0 statement (.here hmem), fun _ hinner n other hother => h (n + 1) other (.inside hmem hinner hother)⟩

theorem ProperBlock.of_subset {routine : Option RoutineKind} {block part : List Statement}
    (h : ProperBlock routine block) (hpart : part ⊆ block) : ProperBlock routine part := by
  intro n statement hstatement
  cases hstatement with
  | here hmem => exact h 0 statement (.here (hpart hmem))
  | inside houter hinner hdeep => exact h _ statement (.inside (hpart houter) hinner hdeep)

theorem properBlock_cons {routine : Option RoutineKind} {first : Statement} {rest : List Statement}
    (hfirst : first.Proper routine) (hblocks : ∀ inner ∈ first.blocks, ProperBlock routine inner)
    (hrest : ProperBlock routine rest) : ProperBlock routine (first :: rest) := by
  intro n statement h
  cases h with
  | here h =>
    rcases List.mem_cons.1 h with rfl | h
    · exact hfirst
    · exact hrest 0 statement (.here h)
  | inside houter hinner h =>
    rcases List.mem_cons.1 houter with rfl | houter
    · exact hblocks _ hinner _ statement h
    · exact hrest _ statement (.inside houter hinner h)

/-- Names are declared, and none of them is that of a built-in function. -/
structure VarDecl.WellFormed (declaration : VarDecl) : Prop where
  names : declaration.names ≠ []
  free : ∀ name ∈ declaration.names, isBuiltin name = false

structure Routine.WellFormed (routine : Routine) : Prop where
  name : isBuiltin routine.name = false
  params : ∀ param ∈ routine.params, isBuiltin param.name = false
  /-- There is a type of the value exactly for functions. -/
  returnType : routine.returnType?.isSome = true ↔ routine.kind = .function
  locals : ∀ declaration ∈ routine.locals, declaration.WellFormed
  body : ProperBlock (some routine.kind) routine.body

/-- The program can be written down. -/
structure Program.WellFormed (program : Program) : Prop where
  constants : ∀ constant ∈ program.constants, isBuiltin constant.name = false
  declarations : ∀ declaration ∈ program.declarations, declaration.WellFormed
  routines : ∀ routine ∈ program.routines, routine.WellFormed
  statements : ProperBlock none program.statements

/-! ## Trees without lines -/

mutual

/-- The expression with all lines set to zero. -/
def Expr.unlined : Expr → Expr
  | .literal value _ => .literal value 0
  | .var name _ => .var name 0
  | .unary op operand _ => .unary op operand.unlined 0
  | .binary left op right _ => .binary left.unlined op right.unlined 0
  | .call name arguments _ => .call name (unlinedExprs arguments) 0

def unlinedExprs : List Expr → List Expr
  | [] => []
  | first :: rest => first.unlined :: unlinedExprs rest

end

mutual

/-- The statement with all lines set to zero. -/
def Statement.unlined : Statement → Statement
  | .assign target value _ => .assign target value.unlined 0
  | .read targets _ => .read targets 0
  | .write values _ => .write (values.map Expr.unlined) 0
  | .branch condition thenBlock elseBlock _ =>
    .branch condition.unlined (unlinedBlock thenBlock) (unlinedElse elseBlock) 0
  | .forLoop name first last step body _ =>
    .forLoop name first.unlined last.unlined (step.map Expr.unlined) (unlinedBlock body) 0
  | .whileLoop condition body _ => .whileLoop condition.unlined (unlinedBlock body) 0
  | .repeatLoop body condition _ => .repeatLoop (unlinedBlock body) condition.unlined 0
  | .call name arguments _ => .call name (arguments.map Expr.unlined) 0
  | .ret value _ => .ret (value.map Expr.unlined) 0

def unlinedBlock : List Statement → List Statement
  | [] => []
  | first :: rest => first.unlined :: unlinedBlock rest

def unlinedElse : Option (List Statement) → Option (List Statement)
  | none => none
  | some block => some (unlinedBlock block)

end

theorem unlinedExprs_eq_map (exprs : List Expr) : unlinedExprs exprs = exprs.map Expr.unlined := by
  induction exprs with
  | nil => rfl
  | cons first rest ih => rw [unlinedExprs, ih, List.map_cons]

theorem unlinedBlock_eq_map (block : List Statement) :
    unlinedBlock block = block.map Statement.unlined := by
  induction block with
  | nil => rfl
  | cons first rest ih => rw [unlinedBlock, ih, List.map_cons]

def VarDecl.unlined (declaration : VarDecl) : VarDecl := { declaration with line := 0 }

def ConstDecl.unlined (constant : ConstDecl) : ConstDecl :=
  { constant with value := constant.value.unlined, line := 0 }

def Routine.unlined (routine : Routine) : Routine :=
  { routine with
    locals := routine.locals.map VarDecl.unlined
    body := unlinedBlock routine.body
    line := 0 }

/-- The program with all lines set to zero. -/
def Program.unlined (program : Program) : Program where
  name := program.name
  constants := program.constants.map ConstDecl.unlined
  declarations := program.declarations.map VarDecl.unlined
  routines := program.routines.map Routine.unlined
  statements := unlinedBlock program.statements

def Item.unlined : Item → Item
  | .constants ds => .constants (ds.map ConstDecl.unlined)
  | .vars ds => .vars (ds.map VarDecl.unlined)
  | .routine r => .routine r.unlined
  | .statements ss => .statements (unlinedBlock ss)

/-- The part can be written down. -/
def Item.WellFormed : Item → Prop
  | .constants ds => ∀ d ∈ ds, isBuiltin d.name = false
  | .vars ds => ∀ d ∈ ds, d.WellFormed
  | .routine r => r.WellFormed
  | .statements ss => ProperBlock none ss

theorem Program.unlined_ofItems (name : Option String) (items : List Item) :
    (ofItems name items).unlined = ofItems name (items.map Item.unlined) := by
  simp only [unlined, ofItems, unlinedBlock_eq_map, List.map_flatMap, List.flatMap_map]
  congr 1 <;> congr 1 <;> funext item <;>
    cases item <;> simp [Item.unlined, unlinedBlock_eq_map]

end Pseudocode
