import Mathlib.Data.List.Induction
import Mathlib.Data.List.Nodup
import Pseudocode.Proofs.Plan.Parallel

/-! # The order of routines

A run looks a routine up by its name and by nothing else. So it does not matter in which order the
routines of a program stand, as long as each of them has a name of its own; and where two of them
share one, nothing is run at all.

* `lookup_perm`: entries with keys of their own are found in any order.
* `relisted`: two machines on which every name is that of the same routine.
* `Program.run_reordered`: whole programs. -/

namespace Pseudocode
set_option autoImplicit false
open Run

/-! ## Tables of routines -/

/-- The key that a routine is found by. -/
def Routine.key (routine : Routine) : String := Text.nameKey routine.name

/-- The routines with their keys. -/
def routineTable (routines : List Routine) : List (String × Routine) :=
  routines.map fun routine => (routine.key, routine)

theorem routineTable_keys (routines : List Routine) :
    (routineTable routines).map Prod.fst = routines.map Routine.key := by
  rw [routineTable, List.map_map]
  rfl

theorem lookup_routineTable_eq_none {routines : List Routine} {key : String} :
    (routineTable routines).lookup key = none ↔ key ∉ routines.map Routine.key := by
  rw [← routineTable_keys, List.lookup_eq_none_iff, List.mem_map]
  constructor
  · rintro h ⟨entry, hentry, rfl⟩
    exact absurd (h entry hentry) (by simp)
  · intro h entry hentry
    exact bne_iff_ne.2 fun hsame => h ⟨entry, hentry, hsame.symm⟩

/-- Entries with keys of their own are found in any order. -/
theorem lookup_perm {entries entries' : List (String × Routine)} (h : entries.Perm entries')
    (hkeys : (entries.map Prod.fst).Nodup) (key : String) :
    entries'.lookup key = entries.lookup key := by
  induction h with
  | nil => rfl
  | cons entry _ ih =>
    have htail := ih (List.nodup_cons.1 hkeys).2
    rw [List.lookup_cons, List.lookup_cons, htail]
  | swap first second rest =>
    have hne : second.1 ≠ first.1 := fun hsame =>
      (List.nodup_cons.1 hkeys).1 (List.mem_map.2 ⟨first, List.mem_cons_self, hsame.symm⟩)
    rw [List.lookup_cons, List.lookup_cons, List.lookup_cons, List.lookup_cons]
    by_cases hfirst : key = first.1
    · have hsecond : key ≠ second.1 := fun hsecond => hne (hsecond.symm.trans hfirst)
      rw [beq_iff_eq.2 hfirst, beq_false_of_ne hsecond]
    · rw [beq_false_of_ne hfirst]
  | trans hfirst _ ih ih' =>
    rw [ih' ((hfirst.map Prod.fst).nodup_iff.1 hkeys), ih hkeys]

/-! ## Two machines -/

/-- Two machines, one with the first table and the other one with the second, and the same in all
else. -/
def Machine.Relisted (table table' : List (String × Routine)) (m m' : Machine) : Prop :=
  m.routines = table ∧ m' = { m with routines := table' }

theorem Machine.set_routines (m : Machine) (name : String) (value : Value) :
    (m.set name value).routines = m.routines := by
  unfold Machine.set
  split <;> rfl

theorem Machine.set_relisted (m : Machine) (routines : List (String × Routine)) (name : String)
    (value : Value) :
    Machine.set { m with routines } name value = { m.set name value with routines } := by
  unfold Machine.set
  cases m.frames <;> rfl

namespace Machine.Relisted
variable {table table' : List (String × Routine)} {m m' : Machine}

theorem content? (h : m.Relisted table table' m') (name : String) :
    m'.content? name = m.content? name := by
  obtain ⟨-, rfl⟩ := h
  rfl

theorem routine? (hsame : ∀ key, table'.lookup key = table.lookup key)
    (h : m.Relisted table table' m') (name : String) : m'.routine? name = m.routine? name := by
  obtain ⟨rfl, rfl⟩ := h
  exact hsame (Text.nameKey name)

/-! ### Elementary computations -/

/-- A change that neither uses nor makes a table of routines. -/
theorem modify {change : Machine → Machine} (hkept : ∀ m, (change m).routines = m.routines)
    (hchange : ∀ m, change { m with routines := table' } = { change m with routines := table' }) :
    Mirrors (Relisted table table') (modify change : Run Unit) := by
  rintro m _ ⟨hm, rfl⟩
  exact .ok () ⟨(hkept m).trans hm, hchange m⟩

theorem load (name : String) (line : Nat) : Mirrors (Relisted table table') (load name line) := by
  exact (Alike.load (fun h => (h.content? name).symm) (fun _ => rfl) fun _ => rfl).mirrors

theorem target (name : String) (line : Nat) :
    Mirrors (Relisted table table') (target name line) := by
  exact (Alike.target (fun h => (h.content? name).symm) (fun _ => rfl) fun _ => rfl).mirrors

theorem assign (name : String) (value : Value) (line : Nat) :
    Mirrors (Relisted table table') (assign name value line) := by
  rw [assign_eq]
  refine (target name line).bind fun ty => (Mirrors.lift _).bind fun converted => ?_
  exact modify (fun m => m.set_routines name converted)
    fun m => m.set_relisted table' name converted

theorem takeInput (name : String) (line : Nat) :
    Mirrors (Relisted table table') (takeInput name line) := by
  rintro m _ ⟨hm, rfl⟩
  unfold Run.takeInput
  rw [get_bind, get_bind]
  cases hinputs : m.inputs with
  | nil => exact .error _ ⟨hm, by rw [hinputs]⟩
  | cons raw rest => exact .ok raw ⟨hm, rfl⟩

theorem readInto (name : String) (line : Nat) :
    Mirrors (Relisted table table') (readInto name line) := by
  rw [readInto_eq]
  refine (target name line).bind fun ty => (takeInput name line).bind fun raw => ?_
  exact (Mirrors.lift _).bind fun value => assign name value line

theorem checkCounter (name : String) (line : Nat) :
    Mirrors (Relisted table table') (checkCounter name line) := by
  rw [checkCounter_eq]
  exact (target name line).bind fun ty => .ite (.pure ()) (.fail _ _)

theorem countStep : Mirrors (Relisted table table') countStep := by
  refine modify (fun m => ?_) fun m => ?_
  · split <;> rfl
  · dsimp only
    split <;> rfl

theorem changeGlobals (change : Environment → Except RuntimeError Environment) :
    Mirrors (Relisted table table') (Program.changeGlobals change) := by
  rintro m _ ⟨hm, rfl⟩
  unfold Program.changeGlobals
  rw [get_bind, get_bind]
  dsimp only
  cases change m.globals with
  | error e => exact .error e ⟨hm, rfl⟩
  | ok globals => exact .ok () ⟨hm, rfl⟩

theorem bindConstant (constant : ConstDecl) (value : Value) :
    Mirrors (Relisted table table') (Program.bindConstant constant value) := by
  unfold Program.bindConstant
  cases constant.ty?.or value.ty? with
  | none => exact .fail _ _
  | some ty => exact (Mirrors.lift _).bind fun converted => changeGlobals _

theorem primitive (hsame : ∀ key, table'.lookup key = table.lookup key) {α : Type}
    (p : Primitive α) (hcharges : p.charges = false)
    (hplace : Place.statement.covers p.place = true) :
    Mirrors (Relisted table table') p.run := by
  cases p with
  | give result => exact .lift result
  | load name line => exact load name line
  | findRoutine name =>
    exact .read (f := Pure.pure) (·.routine? name) (fun _ _ h => h.routine? hsame name) .pure
  | assign name value line => exact assign name value line
  | checkCounter name line => exact checkCounter name line
  | readInto name line => exact readInto name line
  | writeLine text => exact modify (fun _ => rfl) fun _ => rfl
  | chargeCall | chargeTurn => cases hcharges
  | register | define | declare => cases hplace

end Machine.Relisted

/-! ## Programs -/

section Program
variable {table table' : List (String × Routine)}
  (hsame : ∀ key, table'.lookup key = table.lookup key)

/-- Runs on two machines on which every name is that of the same routine. -/
def relisted : Parallel where
  related _ := Machine.Relisted table table'
  limits h := by
    obtain ⟨-, rfl⟩ := h
    rfl
  steps h := by
    obtain ⟨-, rfl⟩ := h
    rfl
  overdue? h := by
    obtain ⟨-, rfl⟩ := h
    rfl
  frames h := by
    obtain ⟨-, rfl⟩ := h
    rfl
  count _ := Machine.Relisted.countStep
  primitive _ _ p := Machine.Relisted.primitive hsame p
  push frame h := by
    obtain ⟨hm, rfl⟩ := h
    exact ⟨hm, rfl⟩
  pop h := by
    obtain ⟨hm, rfl⟩ := h
    exact ⟨hm, rfl⟩

include hsame

theorem Plan.mirrors_relisted {α : Type} (plan : Plan α) (hplan : plan.Within .statement) :
    Mirrors (Machine.Relisted table table') (do plan.denote (← invokeHere)) := by
  let pair := relisted hsame
  have hplan (left : Nat) : Mirrors (pair.related (0 + 1)) (plan.denote (invoke left)) :=
    Parallel.denote (fun routine values line => pair.invoke left routine values line) plan hplan
  have hleft (m m' : Machine) (h : pair.related 0 m m') : m'.depthLeft = m.depthLeft :=
    pair.depthLeft h
  unfold invokeHere
  simp only [bind_assoc, pure_bind]
  exact .read Machine.depthLeft hleft hplan

theorem mirrors_constants (constants : List ConstDecl) :
    Mirrors (Machine.Relisted table table') (Program.defineConstants constants) := by
  induction constants with
  | nil => exact .pure ()
  | cons constant rest ih =>
    have hvalue : Mirrors (Machine.Relisted table table') constant.value.run := by
      unfold Expr.run
      simp only [eval_eq_denote]
      exact constant.value.plan.mirrors_relisted hsame (Expr.plan_within _ constant.value)
    exact (hvalue.bind fun value => Machine.Relisted.bindConstant constant value).bind fun _ => ih

omit hsame in
theorem mirrors_variables (names : List (String × Ty × Nat)) :
    Mirrors (Machine.Relisted table table') (Program.declareVariables names) := by
  induction names with
  | nil => exact .pure ()
  | cons first rest ih => exact (Machine.Relisted.changeGlobals _).bind fun _ => ih

theorem mirrors_block (block : List Statement) :
    Mirrors (Machine.Relisted table table') (runBlock block) := by
  unfold runBlock
  simp only [execBlock_eq_denote]
  exact (planBlock block).mirrors_relisted hsame (planBlock_within rfl block)

/-- Once the routines are known, a program does the same on both machines. -/
theorem mirrors_program (program : Program) :
    Mirrors (Machine.Relisted table table') (do
      Program.defineConstants program.constants
      Program.declareVariables (VarDecl.flatten program.declarations)
      let _ ← runBlock program.statements) := by
  refine (mirrors_constants hsame program.constants).bind fun _ => ?_
  refine (mirrors_variables _).bind fun _ => ?_
  exact (mirrors_block hsame program.statements).bind fun _ => .pure ()

end Program

/-! ## Registration -/

namespace Program

theorem registerRoutines_append (before after : List Routine) :
    registerRoutines (before ++ after) = (do registerRoutines before; registerRoutines after) := by
  funext m
  induction before generalizing m with
  | nil => rfl
  | cons routine before ih =>
    rw [List.cons_append, registerRoutines, registerRoutines, bind_assoc, get_bind, get_bind]
    cases m.routine? routine.name with
    | some found => rfl
    | none => exact ih _

/-- Routines with names of their own become known one behind the other. -/
theorem registerRoutines_distinct (m : Machine) (known routines : List Routine)
    (hm : m.routines = routineTable known)
    (hkeys : ((known ++ routines).map Routine.key).Nodup) :
    registerRoutines routines m =
      .ok () { m with routines := routineTable (known ++ routines) } := by
  induction routines generalizing m known with
  | nil =>
    rw [List.append_nil, ← hm]
    rfl
  | cons routine rest ih =>
    have hsplit : known ++ routine :: rest = (known ++ [routine]) ++ rest := by
      rw [List.append_assoc, List.singleton_append]
    have hnew : routine.key ∉ known.map Routine.key := by
      rw [List.map_append, List.map_cons] at hkeys
      exact fun hmem => (List.nodup_append.1 hkeys).2.2 _ hmem _ List.mem_cons_self rfl
    have hfree : m.routine? routine.name = none := by
      rw [Machine.routine?, hm]
      exact lookup_routineTable_eq_none.2 hnew
    have htable : m.routines ++ [(Text.nameKey routine.name, routine)] =
        routineTable (known ++ [routine]) := by
      rw [hm, routineTable, routineTable, List.map_append]
      rfl
    rw [hsplit] at hkeys ⊢
    rw [registerRoutines, get_bind, hfree]
    exact ih { m with routines := m.routines ++ [(Text.nameKey routine.name, routine)] } _ htable
      hkeys

/-- The first routine whose name is taken stops the run. -/
theorem registerRoutines_taken (m : Machine) {before : List Routine} {routine : Routine}
    (after : List Routine) (hm : m.routines = []) (hkeys : (before.map Routine.key).Nodup)
    (htaken : routine.key ∈ before.map Routine.key) :
    registerRoutines (before ++ routine :: after) m =
      .error ⟨.functionAlreadyDefined routine.name, routine.line⟩
        { m with routines := routineTable before } := by
  have hbefore := registerRoutines_distinct m [] before hm hkeys
  have hfound : Machine.routine? { m with routines := routineTable before } routine.name ≠ none :=
    fun hnone => lookup_routineTable_eq_none.1 hnone htaken
  obtain ⟨found, hfound⟩ := Option.ne_none_iff_exists'.1 hfound
  rw [registerRoutines_append, bind_ok hbefore, List.nil_append, registerRoutines, get_bind, hfound]
  rfl

end Program

/-- Two ends that match are the same but for the table of routines. -/
theorem Ending.Matches.relisted {α : Type} {table table' : List (String × Routine)}
    {ending ending' : Ending α}
    (h : Ending.Matches (Machine.Relisted table table') ending ending') :
    ending' = Ending.map (fun m => { m with routines := table' }) ending := by
  cases h with
  | ok a hrelated =>
    obtain ⟨-, rfl⟩ := hrelated
    rfl
  | error e hrelated =>
    obtain ⟨-, rfl⟩ := hrelated
    rfl

/-- Where names repeat, there is a first routine whose name is one of those before it. -/
theorem exists_first_repeated {routines : List Routine} (h : ¬(routines.map Routine.key).Nodup) :
    ∃ before routine after, routines = before ++ routine :: after ∧
      (before.map Routine.key).Nodup ∧ routine.key ∈ before.map Routine.key := by
  induction routines using List.reverseRecOn with
  | nil => exact absurd .nil h
  | append_singleton routines last ih =>
    by_cases hbefore : (routines.map Routine.key).Nodup
    · refine ⟨routines, last, [], rfl, hbefore, Decidable.byContradiction fun hnew => h ?_⟩
      rw [List.map_append, List.map_singleton]
      exact List.nodup_append.2 ⟨hbefore, List.nodup_singleton _, fun key hkey other hother => by
        rw [List.mem_singleton.1 hother]
        exact fun hsame => hnew (hsame ▸ hkey)⟩
    · obtain ⟨before, routine, after, rfl, hkeys, htaken⟩ := ih hbefore
      have hsplit : before ++ routine :: after ++ [last] =
          before ++ routine :: (after ++ [last]) := by
        rw [List.append_assoc, List.cons_append]
      exact ⟨before, routine, after ++ [last], hsplit, hkeys, htaken⟩

/-- A program whose routines have names of their own runs the same with them in any order: it ends
with the same value or the same error, on a machine that is the same but for that order. Where two
routines share a name, the run fails at the first one whose name is taken, and all that it has done
is to make those before it known. -/
theorem Program.run_reordered (program : Program) (inputs : List String) (limits : Limits)
    (clock : Clock) :
    ((program.routines.map Routine.key).Nodup → ∀ routines, routines.Perm program.routines →
      Program.run { program with routines } (.initial inputs limits clock) =
        Ending.map (fun m => { m with routines := routineTable routines })
          (program.run (.initial inputs limits clock))) ∧
    (¬(program.routines.map Routine.key).Nodup →
      ∃ before routine after, program.routines = before ++ routine :: after ∧
        (before.map Routine.key).Nodup ∧ routine.key ∈ before.map Routine.key ∧
        program.run (.initial inputs limits clock) =
          .error ⟨.functionAlreadyDefined routine.name, routine.line⟩
            { Machine.initial inputs limits clock with routines := routineTable before }) := by
  constructor
  · intro hkeys routines hperm
    have hkeys' : (routines.map Routine.key).Nodup := ((hperm.map _).nodup_iff).2 hkeys
    let start := Machine.initial inputs limits clock
    have hone := registerRoutines_distinct start [] program.routines rfl hkeys
    have hother := registerRoutines_distinct start [] routines rfl hkeys'
    have hsame := lookup_perm (hperm.symm.map fun routine => (routine.key, routine))
      (by rw [List.map_map]; exact hkeys)
    have hmatches := mirrors_program hsame program
      { start with routines := routineTable program.routines }
      { start with routines := routineTable routines } ⟨rfl, rfl⟩
    unfold Program.run
    rw [bind_ok hone, bind_ok hother]
    exact hmatches.relisted
  · intro hkeys
    obtain ⟨before, routine, after, hsplit, hbefore, htaken⟩ := exists_first_repeated hkeys
    refine ⟨before, routine, after, hsplit, hbefore, htaken, ?_⟩
    have hfails := registerRoutines_taken (.initial inputs limits clock) after rfl hbefore htaken
    unfold Program.run
    rw [hsplit, bind_error hfails]

/-- Two functions that call each other, one of them called from a constant, in both orders; and
three routines of which the last two are named like the first. -/
theorem Program.run_reordered_mutual :
    let integer (n : Entier) : Expr := .literal (.integer n) 2
    let half (name other : String) (base : Bool) (line : Nat) : Routine :=
      ⟨.function, name, [⟨"n", .entier⟩], some .booleen, [],
        [.branch (.binary (.var "n" 2) .equal (integer 0) 2)
            [.ret (some (.literal (.boolean base) 2)) 2] none 2,
          .ret (some (.call other [.binary (.var "n" 2) .sub (integer 1) 2] 2)) 2], line⟩
    let even := half "pair" "impair" true 1
    let odd := half "impair" "PAIR" false 2
    let constant : ConstDecl := ⟨"c", none, .call "Pair" [integer 3] 5, 5⟩
    let program : Program := ⟨none, [constant], [], [even, odd], [.write [.var "C" 6] 6]⟩
    let repeated : Program := { program with
      routines := [even, { even with name := "PAIR", line := 3 }, { even with line := 4 }] }
    (program.routines.map Routine.key).Nodup ∧ [odd, even].Perm program.routines ∧
    (Ending.machine (program.run (.initial [] ⟨10, 10, none⟩ .steady))).output = "FAUX\n" ∧
    Program.run { program with routines := [odd, even] } (.initial [] ⟨10, 10, none⟩ .steady) =
      Ending.map (fun m => { m with routines := routineTable [odd, even] })
        (program.run (.initial [] ⟨10, 10, none⟩ .steady)) ∧
    ¬(repeated.routines.map Routine.key).Nodup ∧
    ∃ before routine after, repeated.routines = before ++ routine :: after ∧
      (before.map Routine.key).Nodup ∧ routine.key ∈ before.map Routine.key ∧
      repeated.run (.initial ["x"] ⟨10, 10, none⟩ .steady) =
        .error ⟨.functionAlreadyDefined routine.name, routine.line⟩
          { Machine.initial ["x"] ⟨10, 10, none⟩ .steady with routines := routineTable before } := by
  intro integer half even odd constant program repeated
  have hkeys : (program.routines.map Routine.key).Nodup := by decide
  have hperm : [odd, even].Perm program.routines := .swap _ _ _
  have hrepeated : ¬(repeated.routines.map Routine.key).Nodup := by decide
  exact ⟨hkeys, hperm, by decide,
    (Program.run_reordered program [] ⟨10, 10, none⟩ .steady).1 hkeys _ hperm,
    hrepeated, (Program.run_reordered repeated ["x"] ⟨10, 10, none⟩ .steady).2 hrepeated⟩

end Pseudocode
