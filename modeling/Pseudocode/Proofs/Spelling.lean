import Pseudocode.Proofs.Likeness.Run

/-! # Letter case and lines do not matter

Two programs of the same structure, whose names are the same but for letter case, do the same, on
whatever lines they are written. Each occurrence of a name may be spelled in its own way; those of
built-in functions and of routines too.

* `Program.Respelled`: the two programs.
* `spelling`: their runs are compared without regard to lines.
* `Program.run_respelled`: they do the same. -/

namespace Pseudocode
set_option autoImplicit false

/-- The same program but for the letter case of its names, and for its lines. -/
abbrev Program.Respelled (program program' : Program) : Prop :=
  Program.Alike (fun _ _ => True) program program'

/-- All lines correspond to each other, and nothing is said of errors but their kind. -/
def spelling : Likeness where
  line _ _ := True
  known := Routine.Alike fun _ _ => True
  blame _ _ := True
  alike h := h
  ordinary _ _ _ := trivial
  noValue _ _ _ _ _ := trivial
  noReturn _ _ _ _ := trivial
  pop _ := trivial

/-- The kind of the error that a computation ended with, if it failed. -/
def Ending.kind? {α : Type} : Ending α → Option String
  | .ok _ _ => none
  | .error e _ => some e.cause.kind

theorem Environment.Alike.bindings {env env' : Environment} (h : env.Alike env') :
    env.bindings.map Binding.content = env'.bindings.map Binding.content := by
  have hcontents := congrArg (List.map Prod.snd) h
  unfold contents at hcontents
  unfold Environment.bindings
  rw [List.map_map, List.map_map] at hcontents ⊢
  exact hcontents

/-- Programs that differ in the letter case of their names and in their lines write the same, in as
many steps, leave the same inputs and the same types, values and constancies, and both succeed or
fail with errors of one kind. -/
theorem Program.run_respelled {program program' : Program} (h : program.Respelled program')
    (inputs : List String) (limits : Limits) (clock : Clock) :
    let ending := program.run (.initial inputs limits clock)
    let ending' := program'.run (.initial inputs limits clock)
    (Ending.machine ending).output = (Ending.machine ending').output ∧
    (Ending.machine ending).steps = (Ending.machine ending').steps ∧
    (Ending.machine ending).inputs = (Ending.machine ending').inputs ∧
    (Ending.machine ending).globals.bindings.map Binding.content =
      (Ending.machine ending').globals.bindings.map Binding.content ∧
    Ending.kind? ending = Ending.kind? ending' := by
  intro ending ending'
  have hstart := Machine.alike_initial spelling.known inputs limits clock
  have hruns : Ending.Alike spelling.Related spelling.Failed ending ending' :=
    Likeness.run h h.routines _ _ hstart
  have hmachine : Machine.Alike spelling.known (Ending.machine ending) (Ending.machine ending') ∧
      Ending.kind? ending = Ending.kind? ending' := by
    generalize ending = one at hruns
    generalize ending' = other at hruns
    cases hruns with
    | ok a hrelated => exact ⟨hrelated, rfl⟩
    | error hfailed hrelated => exact ⟨hrelated, congrArg some hfailed.1⟩
  obtain ⟨hrelated, hkind⟩ := hmachine
  exact ⟨hrelated.output, hrelated.steps, hrelated.inputs, hrelated.globals.bindings, hkind⟩

/-- A function that gives back what it is called with, a variable and a built-in function, once in
small and once in capital letters. -/
theorem Program.run_respelled_capitals :
    let program : Program := ⟨none, [], [⟨["s"], .chaine, 1⟩],
      [⟨.function, "same", [⟨"t", .chaine⟩], some .chaine, [], [.ret (some (.var "t" 3)) 3], 2⟩],
      [.assign "s" (.call "same" [.literal (.string "a") 4] 4) 4, .write [.var "s" 5] 5,
        .write [.call "longueur" [.var "s" 6] 6] 6]⟩
    let program' : Program := ⟨none, [], [⟨["S"], .chaine, 0⟩],
      [⟨.function, "SAME", [⟨"T", .chaine⟩], some .chaine, [], [.ret (some (.var "t" 0)) 0], 0⟩],
      [.assign "s" (.call "Same" [.literal (.string "a") 0] 0) 0, .write [.var "S" 0] 0,
        .write [.call "LONGUEUR" [.var "s" 0] 0] 0]⟩
    program.Respelled program' ∧
    (Ending.machine (program'.run (.initial [] ⟨10, 1, none⟩ .steady))).output =
      (Ending.machine (program.run (.initial [] ⟨10, 1, none⟩ .steady))).output := by
  intro program program'
  have hs : SameName "s" "S" := by decide
  have hsame : SameName "same" "SAME" := by decide
  have hcalled : SameName "same" "Same" := by decide
  have hlength : SameName "longueur" "LONGUEUR" := by decide
  have ht : SameName "t" "T" := by decide
  have hbody : List.Forall₂ (Statement.Alike fun _ _ => True)
      [.ret (some (.var "t" 3)) 3] [.ret (some (.var "t" 0)) 0] :=
    .cons (.ret (.some (.var rfl trivial)) trivial) .nil
  have hassign : Statement.Alike (fun _ _ => True)
      (.assign "s" (.call "same" [.literal (.string "a") 4] 4) 4)
      (.assign "s" (.call "Same" [.literal (.string "a") 0] 0) 0) :=
    .assign rfl (.call hcalled (.cons (.literal _ trivial) .nil) trivial) trivial
  have hwrite : Statement.Alike (fun _ _ => True) (.write [.var "s" 5] 5) (.write [.var "S" 0] 0) :=
    .write (.cons (.var hs trivial) .nil) trivial
  have hwriteLength : Statement.Alike (fun _ _ => True)
      (.write [.call "longueur" [.var "s" 6] 6] 6) (.write [.call "LONGUEUR" [.var "s" 0] 0] 0) :=
    .write (.cons (.call hlength (.cons (.var rfl trivial) .nil) trivial) .nil) trivial
  have hrespelled : program.Respelled program' :=
    { constants := .nil
      declarations := .cons ⟨.cons hs .nil, rfl, trivial⟩ .nil
      routines := .cons ⟨rfl, hsame, .cons ⟨ht, rfl⟩ .nil, rfl, .nil, hbody, trivial⟩ .nil
      statements := .cons hassign (.cons hwrite (.cons hwriteLength .nil)) }
  exact ⟨hrespelled, (Program.run_respelled hrespelled [] ⟨10, 1, none⟩ .steady).1.symm⟩

end Pseudocode
