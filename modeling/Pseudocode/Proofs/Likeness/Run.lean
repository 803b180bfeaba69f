import Pseudocode.Proofs.Likeness.Elementary
import Pseudocode.Proofs.TypeSoundness

/-! # Programs that are alike run alike

The two trees are followed side by side, and so are the runs: what the evaluator does with a node is
put together from what it does with the parts of it, and nothing in it tells names apart that differ
in letter case. Calls are related by induction on the number of calls that may still become active.

* `Likeness.eval`, `Likeness.exec`: expressions and statements, given that calls are alike.
* `Likeness.invoke`: calls are alike.
* `Likeness.run`: whole programs. -/

namespace Pseudocode
set_option autoImplicit false
open Run

namespace Likeness
variable {pair : Likeness}

/-! ## Values -/

section Values
variable {l l' : Nat} (hline : pair.line l l')
include hline

theorem test {condition condition' : Run Value} (h : pair.Runs condition condition') :
    pair.Runs (Run.test condition l) (Run.test condition' l') :=
  h.bind fun value => lift (value.placed_asBool.agree hline)

theorem logic (op : BinOp) {left left' right right' : Run Value} (hleft : pair.Runs left left')
    (hright : pair.Runs right right') :
    pair.Runs (Run.logic op left right l) (Run.logic op left' right' l') := by
  refine (test hline hleft).bind fun first => .ite (.pure _) ?_
  exact (test hline hright).bind fun second => .pure _

theorem bound {computation computation' : Run Value} (h : pair.Runs computation computation') :
    pair.Runs (Run.bound computation l) (Run.bound computation' l') := by
  refine h.bind fun value => ?_
  exact lift (value.placed_asEntier.agree hline)

theorem forLoop {name name' : String} (hname : SameName name name')
    {first first' last last' step step' : Run Value} {body body' : Run Flow}
    (hfirst : pair.Runs first first') (hlast : pair.Runs last last')
    (hstep : pair.Runs step step') (hbody : pair.Runs body body') :
    pair.Runs (Run.forLoop name first last step body l)
      (Run.forLoop name' first' last' step' body' l') := by
  refine (checkCounter hname hline).bind fun _ => ?_
  refine (bound hline hfirst).bind fun first => ?_
  refine (bound hline hlast).bind fun last => ?_
  refine (bound hline hstep).bind fun step => .ite (fail rfl rfl hline) ?_
  exact .forTurns (chargeTurn hline) hbody (assign hname hline) last step first

theorem whileLoop {condition condition' : Run Bool} {body body' : Run Flow}
    (hcondition : pair.Runs condition condition') (hbody : pair.Runs body body') :
    pair.Runs (Run.whileLoop condition body l) (Run.whileLoop condition' body' l') := by
  have hturns := Run.Alike.whileTurns (chargeTurn hline) (noTurns hline) hbody hcondition
  intro m m' h
  unfold Run.whileLoop
  rw [get_bind, get_bind, stepsLeft h]
  exact hturns _ m m' h

theorem repeatLoop {condition condition' : Run Bool} {body body' : Run Flow}
    (hbody : pair.Runs body body') (hcondition : pair.Runs condition condition') :
    pair.Runs (Run.repeatLoop body condition l) (Run.repeatLoop body' condition' l') := by
  have hturns := Run.Alike.repeatTurns (chargeTurn hline) (noTurns hline) hbody hcondition
  intro m m' h
  unfold Run.repeatLoop
  rw [get_bind, get_bind, stepsLeft h]
  exact hturns _ m m' h

end Values

/-! ## Calls by name -/

/-- A call by name only yields nothing when it reaches a procedure. -/
theorem callNamed_eq_none {depth : Nat} {name : String} {count : Nat}
    {arguments : Run (List Value)} {line : Nat} {m m' : Machine}
    (h : Run.callNamed (Pseudocode.invoke depth) name count arguments line m = .ok none m') :
    ∃ routine, m.routine? name = some routine ∧ routine.kind = .procedure := by
  cases hbuiltin : Builtin.find? name with
  | some builtin =>
    simp only [Run.callNamed, hbuiltin] at h
    obtain ⟨values, m₁, -, hvalues⟩ := bind_eq_ok h
    split at hvalues
    · rw [map_eq_pure_bind] at hvalues
      obtain ⟨result, m₂, -, hresult⟩ := bind_eq_ok hvalues
      cases hresult
    · cases hvalues
  | none =>
    cases hroutine : m.routine? name with
    | none =>
      simp only [Run.callNamed, hbuiltin, get_bind, hroutine] at h
      cases h
    | some routine =>
      cases hkind : routine.kind with
      | procedure => exact ⟨routine, rfl, hkind⟩
      | function =>
        obtain ⟨flow, hresult⟩ := callNamed_result hbuiltin hroutine h
        obtain ⟨value, hvalue⟩ := Routine.result_function hkind hresult
        cases hvalue

/-- Calls of routines that correspond to each other are alike. -/
def CallsAlike (pair : Likeness) (depth : Nat) : Prop :=
  ∀ {routine routine' : Routine} (values : List Value) {l l' : Nat},
    pair.known routine routine' → pair.line l l' →
    pair.Runs (Pseudocode.invoke depth routine values l)
      (Pseudocode.invoke depth routine' values l')

section Named
variable {depth : Nat} (hinvoke : pair.CallsAlike depth) {name name' : String}
  (hname : SameName name name') (count : Nat) {arguments arguments' : Run (List Value)}
  (harguments : pair.Runs arguments arguments') {l l' : Nat} (hline : pair.line l l')
include hinvoke hname harguments hline

theorem callNamed :
    pair.Runs (Run.callNamed (Pseudocode.invoke depth) name count arguments l)
      (Run.callNamed (Pseudocode.invoke depth) name' count arguments' l') := by
  unfold Run.callNamed
  rw [Builtin.find?_congr hname]
  cases Builtin.find? name' with
  | some builtin =>
    refine harguments.bind fun values => .ite ?_ (fail rfl rfl hline)
    rw [map_eq_pure_bind, map_eq_pure_bind]
    exact (lift ((builtin.placed_apply values).agree hline)).bind fun _ => .pure _
  | none =>
    intro m m' h
    have hroutine := h.routine? hname
    dsimp only
    rw [get_bind, get_bind]
    generalize m.routine? name = found at hroutine
    generalize m'.routine? name' = found' at hroutine
    cases hroutine with
    | none => exact fails h rfl rfl hline
    | @some routine routine' hknown =>
      have hparams := (pair.alike hknown.1).params.length_eq
      dsimp only
      rw [hparams]
      split
      · exact (harguments.bind fun values => hinvoke values hknown.1 hline) m m' h
      · exact fails h rfl rfl hline

/-- A call that reaches no procedure has a value. -/
theorem callNamed_value {m m' : Machine} (h : pair.Related m m')
    (hkind : ∀ routine, m.routine? name = some routine → routine.kind ≠ .procedure) :
    Ending.Alike pair.Related pair.Failed
      ((do match ← Run.callNamed (Pseudocode.invoke depth) name count arguments l with
        | some value => return value
        | none => Run.fail (.noReturnValue name) l : Run Value) m)
      ((do match ← Run.callNamed (Pseudocode.invoke depth) name' count arguments' l' with
        | some value => return value
        | none => Run.fail (.noReturnValue name') l' : Run Value) m') := by
  have hnamed := callNamed hinvoke hname count harguments hline m m' h
  refine Run.Alike.bind_at hnamed fun result m₁ m₁' hended hrelated => ?_
  cases result with
  | some value => exact .ok value hrelated
  | none =>
    obtain ⟨routine, hfound, hprocedure⟩ := callNamed_eq_none hended
    exact absurd hprocedure (hkind routine hfound)

theorem callForValue :
    pair.Runs (Run.callForValue (Pseudocode.invoke depth) name count arguments l)
      (Run.callForValue (Pseudocode.invoke depth) name' count arguments' l') := by
  intro m m' h
  have hroutine := h.routine? hname
  have hcalled := callNamed_value hinvoke hname count harguments hline h
  unfold Run.callForValue
  rw [get_bind, get_bind]
  cases hm : m.routine? name with
  | none =>
    cases hm' : m'.routine? name' with
    | some routine' =>
      rw [hm, hm'] at hroutine
      cases hroutine
    | none =>
      refine hcalled fun routine hfound => ?_
      rw [hm] at hfound
      cases hfound
  | some routine =>
    cases hm' : m'.routine? name' with
    | none =>
      rw [hm, hm'] at hroutine
      cases hroutine
    | some routine' =>
      rw [hm, hm'] at hroutine
      obtain ⟨hknown, hsame⟩ := Option.rel_some_some.1 hroutine
      have hkinds := (pair.alike hknown).kind
      cases hkind : routine.kind with
      | procedure =>
        simp only [Option.map_some, ← hkinds, hkind]
        exact .error ⟨rfl, pair.noValue m hknown hkind hsame hline⟩ h
      | function =>
        simp only [Option.map_some, ← hkinds, hkind]
        refine hcalled fun other hfound hprocedure => ?_
        rw [hm] at hfound
        cases hfound
        rw [hkind] at hprocedure
        cases hprocedure

end Named

/-! ## Expressions and statements

The first tree is followed, and the second one with it. -/

section Trees
variable {depth : Nat}

mutual

theorem eval (hcalls : pair.CallsAlike depth) : (e : Expr) → {e' : Expr} →
    Expr.Alike pair.line e e' →
    pair.Runs (Pseudocode.eval (Pseudocode.invoke depth) e)
      (Pseudocode.eval (Pseudocode.invoke depth) e')
  | .literal .., _, .literal value _ => .pure value.toValue
  | .var .., _, .var hname hline => load hname hline
  | .unary _ operand _, _, .unary op hoperand hline =>
    (eval hcalls operand hoperand).bind fun value =>
      lift ((Value.placed_unary op value).agree hline)
  | .binary left _ right _, _, .binary op hleft hright hline => by
    have hfirst := eval hcalls left hleft
    have hsecond := eval hcalls right hright
    rw [Pseudocode.eval, Pseudocode.eval]
    refine .ite (logic hline op hfirst hsecond) ?_
    refine hfirst.bind fun a => hsecond.bind fun b => ?_
    exact lift ((Value.placed_binary op a b).agree hline)
  | .call _ arguments _, _, .call hname harguments hline => by
    have hvalues := evalAll hcalls arguments harguments
    rw [Pseudocode.eval, Pseudocode.eval, ← harguments.length_eq]
    exact callForValue hcalls hname _ hvalues hline

theorem evalAll (hcalls : pair.CallsAlike depth) : (exprs : List Expr) → {exprs' : List Expr} →
    List.Forall₂ (Expr.Alike pair.line) exprs exprs' →
    pair.Runs (Pseudocode.evalAll (Pseudocode.invoke depth) exprs)
      (Pseudocode.evalAll (Pseudocode.invoke depth) exprs')
  | [], _, .nil => .pure []
  | first :: rest, _, .cons hfirst hrest =>
    (eval hcalls first hfirst).bind fun value => (evalAll hcalls rest hrest).bind fun values =>
      .pure (value :: values)

end

theorem evalStep (hcalls : pair.CallsAlike depth) : {step step' : Option Expr} →
    Option.Rel (Expr.Alike pair.line) step step' →
    pair.Runs (Pseudocode.evalStep (Pseudocode.invoke depth) step)
      (Pseudocode.evalStep (Pseudocode.invoke depth) step')
  | none, none, .none => .pure _
  | some step, some _, .some h => eval hcalls step h

mutual

theorem exec (hcalls : pair.CallsAlike depth) : (statement : Statement) → {statement' : Statement} →
    Statement.Alike pair.line statement statement' →
    pair.Runs (Pseudocode.exec (Pseudocode.invoke depth) statement)
      (Pseudocode.exec (Pseudocode.invoke depth) statement')
  | .assign _ value _, _, .assign hname hvalue hline =>
    (eval hcalls value hvalue).bind fun value =>
      (assign hname hline value).bind fun _ => .pure Flow.normal
  | .read .., _, .read htargets hline => (readAll htargets hline).bind fun _ => .pure Flow.normal
  | .write values _, _, .write hvalues _ =>
    (evalAll hcalls values hvalues).bind fun values =>
      (writeLine _).bind fun _ => .pure Flow.normal
  | .branch condition thenBlock elseBlock _, _, .branch hcondition hthen helse hline =>
    (test hline (eval hcalls condition hcondition)).bind fun holds =>
      .ite (execBlock hcalls thenBlock hthen) (execElse hcalls elseBlock helse)
  | .forLoop _ first last _ body _, _, .forLoop hname hfirst hlast hstep hbody hline =>
    forLoop hline hname (eval hcalls first hfirst) (eval hcalls last hlast)
      (evalStep hcalls hstep) (execBlock hcalls body hbody)
  | .whileLoop condition body _, _, .whileLoop hcondition hbody hline =>
    whileLoop hline (test hline (eval hcalls condition hcondition)) (execBlock hcalls body hbody)
  | .repeatLoop body condition _, _, .repeatLoop hbody hcondition hline =>
    repeatLoop hline (execBlock hcalls body hbody) (test hline (eval hcalls condition hcondition))
  | .call _ arguments _, _, .call hname harguments hline => by
    have hvalues := evalAll hcalls arguments harguments
    rw [Pseudocode.exec, Pseudocode.exec, ← harguments.length_eq]
    exact (callNamed hcalls hname _ hvalues hline).bind fun _ => .pure Flow.normal
  | .ret none _, _, .ret .none _ => .pure (Flow.returned none)
  | .ret (some value) _, _, .ret (.some hvalue) _ =>
    (eval hcalls value hvalue).bind fun value => .pure (Flow.returned (some value))

theorem execBlock (hcalls : pair.CallsAlike depth) : (block : List Statement) →
    {block' : List Statement} → List.Forall₂ (Statement.Alike pair.line) block block' →
    pair.Runs (Pseudocode.execBlock (Pseudocode.invoke depth) block)
      (Pseudocode.execBlock (Pseudocode.invoke depth) block')
  | [], _, .nil => .pure Flow.normal
  | first :: rest, _, .cons hfirst hrest =>
    (exec hcalls first hfirst).andThen (execBlock hcalls rest hrest)

theorem execElse (hcalls : pair.CallsAlike depth) : (block : Option (List Statement)) →
    {block' : Option (List Statement)} →
    Option.Rel (List.Forall₂ (Statement.Alike pair.line)) block block' →
    pair.Runs (Pseudocode.execElse (Pseudocode.invoke depth) block)
      (Pseudocode.execElse (Pseudocode.invoke depth) block')
  | none, _, .none => .pure Flow.normal
  | some block, _, .some h => execBlock hcalls block h

end

end Trees

/-! ## Calls -/

theorem pop_failed {e e' : RuntimeError} {m : Machine} (h : pair.Failed e e' m) :
    pair.Failed e e' m.pop :=
  ⟨h.1, pair.pop h.2⟩

/-- The result of a call, after its body has ended alike in both runs. -/
theorem result {routine routine' : Routine} {l l' depth : Nat} {inner ended m' : Machine}
    {flow : Flow} (hknown : pair.known routine routine') (hline : pair.line l l')
    (hbody : Pseudocode.execBlock (Pseudocode.invoke depth) routine.body inner = .ok flow ended)
    (h : pair.Related ended.pop m') :
    Ending.Alike pair.Related pair.Failed (Run.lift (routine.result flow l) ended.pop)
      (Run.lift (routine'.result flow l') m') := by
  have halike := pair.alike hknown
  unfold Routine.result
  rw [← halike.kind, ← halike.returnType?]
  cases hkind : routine.kind with
  | procedure => exact .ok none h
  | function =>
    have hmissing (hvalue : ∀ value, flow ≠ .returned (some value)) :
        Ending.Alike pair.Related pair.Failed
          (Run.fail (.missingReturn routine.name) routine.line ended.pop : Ending (Option Value))
          (Run.fail (.missingReturn routine'.name) routine'.line m') :=
      .error ⟨rfl, pair.noReturn hknown hkind hbody hvalue⟩ h
    match flow, hmissing with
    | .normal, hmissing => exact hmissing nofun
    | .returned none, hmissing => exact hmissing nofun
    | .returned (some value), _ =>
      cases routine.returnType? with
      | none => exact .ok (some value) h
      | some ty =>
        have hconvert := value.agree_coerce ty (.result routine.name) (.result routine'.name) hline
        have hresult := hconvert.map fun a b hab => congrArg some hab
        exact lift hresult ended.pop m' h

/-- The induction is on the number of calls that may still become active. -/
theorem invoke (pair : Likeness) (depth : Nat) : pair.CallsAlike depth := by
  induction depth with
  | zero =>
    intro routine routine' values l l' hknown hline
    refine (chargeCall hline routine.name routine'.name).bind fun _ m m' h => ?_
    exact fails h rfl rfl hline
  | succ depth ih =>
    intro routine routine' values l l' hknown hline
    have halike := pair.alike hknown
    refine (chargeCall hline routine.name routine'.name).bind fun _ => ?_
    refine lift_bind (Routine.agree_frame halike hline values) fun frame frame' hframe => ?_
    intro m m' h
    -- what is said of a missing return needs the machine on which the body ended
    have hbody := execBlock ih routine.body halike.body
    have hinside := hbody.inFrame (fun hrelated => hrelated.push hframe)
      (fun hrelated => hrelated.pop) pop_failed m m' h
    refine Run.Alike.bind_at hinside fun flow m₁ m₁' hended hrelated => ?_
    rw [inFrame_apply] at hended
    cases hrun : Pseudocode.execBlock (Pseudocode.invoke depth) routine.body (m.push frame) with
    | error e ended =>
      rw [hrun] at hended
      cases hended
    | ok flow ended =>
      rw [hrun] at hended
      cases hended
      exact result hknown hline hrun hrelated

/-! ## Programs -/

theorem expr {e e' : Expr} (h : Expr.Alike pair.line e e') : pair.Runs e.run e'.run := by
  intro m m' hrelated
  have heval := eval (pair.invoke m.depthLeft) e h m m' hrelated
  have hdepth := depthLeft hrelated
  change Ending.Alike _ _ (Pseudocode.eval (Pseudocode.invoke m.depthLeft) e m)
    (Pseudocode.eval (Pseudocode.invoke m'.depthLeft) e' m')
  rw [← hdepth]
  exact heval

theorem block {block block' : List Statement}
    (h : List.Forall₂ (Statement.Alike pair.line) block block') :
    pair.Runs (runBlock block) (runBlock block') := by
  intro m m' hrelated
  have hexec := execBlock (pair.invoke m.depthLeft) block h m m' hrelated
  have hdepth := depthLeft hrelated
  change Ending.Alike _ _ (Pseudocode.execBlock (Pseudocode.invoke m.depthLeft) block m)
    (Pseudocode.execBlock (Pseudocode.invoke m'.depthLeft) block' m')
  rw [← hdepth]
  exact hexec

theorem registerRoutines {routines routines' : List Routine}
    (h : List.Forall₂ pair.known routines routines') :
    pair.Runs (Program.registerRoutines routines) (Program.registerRoutines routines') := by
  induction h with
  | nil => exact .pure ()
  | @cons routine routine' _ _ hknown _ ih =>
    intro m m' hrelated
    have halike := pair.alike hknown
    have hkey : Text.nameKey routine.name = Text.nameKey routine'.name := halike.name
    have hfound := hrelated.routine? halike.name
    unfold Program.registerRoutines
    rw [get_bind, get_bind]
    generalize m.routine? routine.name = found at hfound
    generalize m'.routine? routine'.name = found' at hfound
    cases hfound with
    | some _ => exact fails hrelated rfl rfl halike.line
    | none =>
      have hadded := List.rel_append hrelated.routines
        (.cons (⟨rfl, hkey, hknown⟩ : KnownAlike pair.known (_, routine) (_, routine')) .nil)
      exact ih _ _ { hrelated with routines := hadded }

theorem changeGlobals {change change' : Environment → Except RuntimeError Environment}
    (h : ∀ env env' : Environment, env.Alike env' →
      Agree pair.line Environment.Alike (change env) (change' env')) :
    pair.Runs (Program.changeGlobals change) (Program.changeGlobals change') := by
  intro m m' hrelated
  have hnext (globals globals' : Environment) (hglobals : globals.Alike globals') :
      pair.Runs (MonadState.set { m with globals })
        (MonadState.set { m' with globals := globals' }) :=
    fun _ _ _ => .ok () { hrelated with globals := hglobals }
  exact lift_bind (h m.globals m'.globals hrelated.globals) hnext m m' hrelated

theorem defineConstant {constant constant' : ConstDecl}
    (h : ConstDecl.Alike pair.line constant constant') :
    pair.Runs (Program.defineConstant constant) (Program.defineConstant constant') := by
  refine (expr h.value).bind fun value => ?_
  unfold Program.bindConstant
  rw [← h.ty?]
  cases constant.ty?.or value.ty? with
  | none => exact fail rfl rfl h.line
  | some ty =>
    have hconvert := value.agree_coerce ty (.const constant.name) (.const constant'.name) h.line
    refine (lift hconvert).bind fun converted => changeGlobals fun env env' henv => ?_
    exact henv.agree_define h.name ty converted true h.line

theorem defineConstants {constants constants' : List ConstDecl}
    (h : List.Forall₂ (ConstDecl.Alike pair.line) constants constants') :
    pair.Runs (Program.defineConstants constants) (Program.defineConstants constants') := by
  induction h with
  | nil => exact .pure ()
  | cons hfirst _ ih => exact (defineConstant hfirst).bind fun _ => ih

theorem declareVariables {declared declared' : List (String × Ty × Nat)}
    (h : List.Forall₂ (DeclaredAlike pair.line) declared declared') :
    pair.Runs (Program.declareVariables declared) (Program.declareVariables declared') := by
  induction h with
  | nil => exact .pure ()
  | @cons first first' _ _ hfirst _ ih =>
    obtain ⟨name, ty, l⟩ := first
    obtain ⟨name', ty', l'⟩ := first'
    obtain rfl : ty = ty' := hfirst.ty
    refine (changeGlobals fun env env' henv => ?_).bind fun _ => ih
    exact henv.agree_declare hfirst.name ty hfirst.line

/-- Programs that are alike run alike, if their routines are what corresponds to each other. -/
theorem run {program program' : Program} (h : Program.Alike pair.line program program')
    (hroutines : List.Forall₂ pair.known program.routines program'.routines) :
    pair.Runs program.run program'.run := by
  refine (registerRoutines hroutines).bind fun _ => ?_
  refine (defineConstants h.constants).bind fun _ => ?_
  refine (declareVariables (VarDecl.Alike.flatten h.declarations)).bind fun _ => ?_
  exact (block h.statements).bind fun _ => .pure ()

end Likeness
end Pseudocode
