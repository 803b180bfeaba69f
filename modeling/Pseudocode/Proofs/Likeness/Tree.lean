import Mathlib.Data.List.Forall2
import Pseudocode.Program
import Pseudocode.Proofs.Text.NameKey

/-! # Trees that are alike

Two trees are alike if they have the same structure: the same literals, operators and types, and at
corresponding places names that differ in letter case at most. Lines at corresponding places stand
in a given relation, which may be any. The headings of two programs may differ as they like.

* `Expr.Alike`, `Statement.Alike`, `Routine.Alike`, `Program.Alike`: trees that are alike.
* `Expr.OnLines`, …, `Program.OnLines`: all nodes of a tree are on lines with a property.
* `Program.alike_self`: such a tree is like itself. -/

namespace Pseudocode
set_option autoImplicit false

/-! ## Alike -/

section Alike
variable (line : Nat → Nat → Prop)

inductive Expr.Alike : Expr → Expr → Prop where
  | literal (value : Literal) {l l' : Nat} :
      line l l' → Expr.Alike (.literal value l) (.literal value l')
  | var {name name' : String} {l l' : Nat} :
      SameName name name' → line l l' → Expr.Alike (.var name l) (.var name' l')
  | unary (op : UnOp) {operand operand' : Expr} {l l' : Nat} :
      Expr.Alike operand operand' → line l l' →
      Expr.Alike (.unary op operand l) (.unary op operand' l')
  | binary (op : BinOp) {left left' right right' : Expr} {l l' : Nat} :
      Expr.Alike left left' → Expr.Alike right right' → line l l' →
      Expr.Alike (.binary left op right l) (.binary left' op right' l')
  | call {name name' : String} {arguments arguments' : List Expr} {l l' : Nat} :
      SameName name name' → List.Forall₂ Expr.Alike arguments arguments' → line l l' →
      Expr.Alike (.call name arguments l) (.call name' arguments' l')

inductive Statement.Alike : Statement → Statement → Prop where
  | assign {target target' : String} {value value' : Expr} {l l' : Nat} :
      SameName target target' → Expr.Alike line value value' → line l l' →
      Statement.Alike (.assign target value l) (.assign target' value' l')
  | read {targets targets' : List String} {l l' : Nat} :
      List.Forall₂ SameName targets targets' → line l l' →
      Statement.Alike (.read targets l) (.read targets' l')
  | write {values values' : List Expr} {l l' : Nat} :
      List.Forall₂ (Expr.Alike line) values values' → line l l' →
      Statement.Alike (.write values l) (.write values' l')
  | branch {condition condition' : Expr} {thenBlock thenBlock' : List Statement}
      {elseBlock elseBlock' : Option (List Statement)} {l l' : Nat} :
      Expr.Alike line condition condition' → List.Forall₂ Statement.Alike thenBlock thenBlock' →
      Option.Rel (List.Forall₂ Statement.Alike) elseBlock elseBlock' → line l l' →
      Statement.Alike (.branch condition thenBlock elseBlock l)
        (.branch condition' thenBlock' elseBlock' l')
  | forLoop {name name' : String} {first first' last last' : Expr} {step step' : Option Expr}
      {body body' : List Statement} {l l' : Nat} :
      SameName name name' → Expr.Alike line first first' → Expr.Alike line last last' →
      Option.Rel (Expr.Alike line) step step' → List.Forall₂ Statement.Alike body body' →
      line l l' →
      Statement.Alike (.forLoop name first last step body l)
        (.forLoop name' first' last' step' body' l')
  | whileLoop {condition condition' : Expr} {body body' : List Statement} {l l' : Nat} :
      Expr.Alike line condition condition' → List.Forall₂ Statement.Alike body body' → line l l' →
      Statement.Alike (.whileLoop condition body l) (.whileLoop condition' body' l')
  | repeatLoop {body body' : List Statement} {condition condition' : Expr} {l l' : Nat} :
      List.Forall₂ Statement.Alike body body' → Expr.Alike line condition condition' → line l l' →
      Statement.Alike (.repeatLoop body condition l) (.repeatLoop body' condition' l')
  | call {name name' : String} {arguments arguments' : List Expr} {l l' : Nat} :
      SameName name name' → List.Forall₂ (Expr.Alike line) arguments arguments' → line l l' →
      Statement.Alike (.call name arguments l) (.call name' arguments' l')
  | ret {value value' : Option Expr} {l l' : Nat} :
      Option.Rel (Expr.Alike line) value value' → line l l' →
      Statement.Alike (.ret value l) (.ret value' l')

structure VarDecl.Alike (declaration declaration' : VarDecl) : Prop where
  names : List.Forall₂ SameName declaration.names declaration'.names
  ty : declaration.ty = declaration'.ty
  line : line declaration.line declaration'.line

structure ConstDecl.Alike (constant constant' : ConstDecl) : Prop where
  name : SameName constant.name constant'.name
  ty? : constant.ty? = constant'.ty?
  value : Expr.Alike line constant.value constant'.value
  line : line constant.line constant'.line

structure Param.Alike (param param' : Param) : Prop where
  name : SameName param.name param'.name
  ty : param.ty = param'.ty

structure Routine.Alike (routine routine' : Routine) : Prop where
  kind : routine.kind = routine'.kind
  name : SameName routine.name routine'.name
  params : List.Forall₂ Param.Alike routine.params routine'.params
  returnType? : routine.returnType? = routine'.returnType?
  locals : List.Forall₂ (VarDecl.Alike line) routine.locals routine'.locals
  body : List.Forall₂ (Statement.Alike line) routine.body routine'.body
  line : line routine.line routine'.line

/-- Programs of the same structure, whose names are the same but for letter case. -/
structure Program.Alike (program program' : Program) : Prop where
  constants : List.Forall₂ (ConstDecl.Alike line) program.constants program'.constants
  declarations : List.Forall₂ (VarDecl.Alike line) program.declarations program'.declarations
  routines : List.Forall₂ (Routine.Alike line) program.routines program'.routines
  statements : List.Forall₂ (Statement.Alike line) program.statements program'.statements

end Alike

/-! ## Lines with a property -/

section OnLines
variable (P : Nat → Prop)

inductive Expr.OnLines : Expr → Prop where
  | literal {value : Literal} {line : Nat} : P line → Expr.OnLines (.literal value line)
  | var {name : String} {line : Nat} : P line → Expr.OnLines (.var name line)
  | unary {op : UnOp} {operand : Expr} {line : Nat} :
      Expr.OnLines operand → P line → Expr.OnLines (.unary op operand line)
  | binary {op : BinOp} {left right : Expr} {line : Nat} :
      Expr.OnLines left → Expr.OnLines right → P line → Expr.OnLines (.binary left op right line)
  | call {name : String} {arguments : List Expr} {line : Nat} :
      (∀ argument ∈ arguments, Expr.OnLines argument) → P line →
      Expr.OnLines (.call name arguments line)

inductive Statement.OnLines : Statement → Prop where
  | assign {target : String} {value : Expr} {line : Nat} :
      value.OnLines P → P line → Statement.OnLines (.assign target value line)
  | read {targets : List String} {line : Nat} : P line → Statement.OnLines (.read targets line)
  | write {values : List Expr} {line : Nat} :
      (∀ value ∈ values, value.OnLines P) → P line → Statement.OnLines (.write values line)
  | branch {condition : Expr} {thenBlock : List Statement} {elseBlock : Option (List Statement)}
      {line : Nat} :
      condition.OnLines P → (∀ inner ∈ thenBlock, Statement.OnLines inner) →
      (∀ block ∈ elseBlock, ∀ inner ∈ block, Statement.OnLines inner) → P line →
      Statement.OnLines (.branch condition thenBlock elseBlock line)
  | forLoop {name : String} {first last : Expr} {step : Option Expr} {body : List Statement}
      {line : Nat} :
      first.OnLines P → last.OnLines P → (∀ e ∈ step, e.OnLines P) →
      (∀ inner ∈ body, Statement.OnLines inner) → P line →
      Statement.OnLines (.forLoop name first last step body line)
  | whileLoop {condition : Expr} {body : List Statement} {line : Nat} :
      condition.OnLines P → (∀ inner ∈ body, Statement.OnLines inner) → P line →
      Statement.OnLines (.whileLoop condition body line)
  | repeatLoop {body : List Statement} {condition : Expr} {line : Nat} :
      (∀ inner ∈ body, Statement.OnLines inner) → condition.OnLines P → P line →
      Statement.OnLines (.repeatLoop body condition line)
  | call {name : String} {arguments : List Expr} {line : Nat} :
      (∀ argument ∈ arguments, argument.OnLines P) → P line →
      Statement.OnLines (.call name arguments line)
  | ret {value : Option Expr} {line : Nat} :
      (∀ e ∈ value, e.OnLines P) → P line → Statement.OnLines (.ret value line)

structure ConstDecl.OnLines (constant : ConstDecl) : Prop where
  value : constant.value.OnLines P
  line : P constant.line

structure Routine.OnLines (routine : Routine) : Prop where
  locals : ∀ declaration ∈ routine.locals, P declaration.line
  body : ∀ statement ∈ routine.body, statement.OnLines P
  line : P routine.line

/-- All nodes of the program are on lines with the property. -/
structure Program.OnLines (program : Program) : Prop where
  constants : ∀ constant ∈ program.constants, constant.OnLines P
  declarations : ∀ declaration ∈ program.declarations, P declaration.line
  routines : ∀ routine ∈ program.routines, routine.OnLines P
  statements : ∀ statement ∈ program.statements, statement.OnLines P

end OnLines

/-! ## A tree is like itself -/

section Self
variable {P : Nat → Prop} {line : Nat → Nat → Prop}

theorem option_rel_self {α : Type} {r : α → α → Prop} {a : Option α} (h : ∀ x ∈ a, r x x) :
    Option.Rel r a a := by
  cases a with
  | none => exact .none
  | some x => exact .some (h x rfl)

theorem sameNames_self (names : List String) : List.Forall₂ SameName names names :=
  List.forall₂_same.2 fun name _ => .refl name

variable (hline : ∀ l, P l → line l l)
include hline

theorem Expr.alike_self {e : Expr} (h : e.OnLines P) : Expr.Alike line e e := by
  induction h with
  | literal hl => exact .literal _ (hline _ hl)
  | var hl => exact .var (.refl _) (hline _ hl)
  | unary _ hl ih => exact .unary _ ih (hline _ hl)
  | binary _ _ hl ihleft ihright => exact .binary _ ihleft ihright (hline _ hl)
  | call _ hl ih => exact .call (.refl _) (List.forall₂_same.2 ih) (hline _ hl)

theorem Expr.alikeAll_self {exprs : List Expr} (h : ∀ e ∈ exprs, e.OnLines P) :
    List.Forall₂ (Expr.Alike line) exprs exprs :=
  List.forall₂_same.2 fun e he => Expr.alike_self hline (h e he)

theorem Expr.alikeOption_self {e? : Option Expr} (h : ∀ e ∈ e?, e.OnLines P) :
    Option.Rel (Expr.Alike line) e? e? :=
  option_rel_self fun e he => Expr.alike_self hline (h e he)

theorem Statement.alike_self {statement : Statement} (h : statement.OnLines P) :
    Statement.Alike line statement statement := by
  induction h with
  | assign hvalue hl => exact .assign (.refl _) (Expr.alike_self hline hvalue) (hline _ hl)
  | read hl => exact .read (sameNames_self _) (hline _ hl)
  | write hvalues hl => exact .write (Expr.alikeAll_self hline hvalues) (hline _ hl)
  | branch hcondition _ _ hl ihthen ihelse =>
    have helse := option_rel_self fun block hblock => List.forall₂_same.2 (ihelse block hblock)
    exact .branch (Expr.alike_self hline hcondition) (List.forall₂_same.2 ihthen) helse (hline _ hl)
  | forLoop hfirst hlast hstep _ hl ih =>
    exact .forLoop (.refl _) (Expr.alike_self hline hfirst) (Expr.alike_self hline hlast)
      (Expr.alikeOption_self hline hstep) (List.forall₂_same.2 ih) (hline _ hl)
  | whileLoop hcondition _ hl ih =>
    exact .whileLoop (Expr.alike_self hline hcondition) (List.forall₂_same.2 ih) (hline _ hl)
  | repeatLoop _ hcondition hl ih =>
    exact .repeatLoop (List.forall₂_same.2 ih) (Expr.alike_self hline hcondition) (hline _ hl)
  | call harguments hl =>
    exact .call (.refl _) (Expr.alikeAll_self hline harguments) (hline _ hl)
  | ret hvalue hl => exact .ret (Expr.alikeOption_self hline hvalue) (hline _ hl)

theorem VarDecl.alike_self {declaration : VarDecl} (h : P declaration.line) :
    VarDecl.Alike line declaration declaration :=
  ⟨sameNames_self _, rfl, hline _ h⟩

theorem Routine.alike_self {routine : Routine} (h : routine.OnLines P) :
    Routine.Alike line routine routine where
  kind := rfl
  name := .refl _
  params := List.forall₂_same.2 fun _ _ => ⟨.refl _, rfl⟩
  returnType? := rfl
  locals := List.forall₂_same.2 fun d hd => VarDecl.alike_self hline (h.locals d hd)
  body := List.forall₂_same.2 fun s hs => Statement.alike_self hline (h.body s hs)
  line := hline _ h.line

theorem Program.alike_self {program : Program} (h : program.OnLines P) :
    Program.Alike line program program where
  constants := List.forall₂_same.2 fun c hc =>
    ⟨.refl _, rfl, Expr.alike_self hline (h.constants c hc).value, hline _ (h.constants c hc).line⟩
  declarations := List.forall₂_same.2 fun d hd => VarDecl.alike_self hline (h.declarations d hd)
  routines := List.forall₂_same.2 fun r hr => Routine.alike_self hline (h.routines r hr)
  statements := List.forall₂_same.2 fun s hs => Statement.alike_self hline (h.statements s hs)

end Self
end Pseudocode
