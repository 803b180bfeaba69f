import Pseudocode.Proofs.BlockEnd
import Pseudocode.Proofs.ErrorOrigin
import Pseudocode.Proofs.Grammar.BuildsProgram

/-! # Programs that were parsed

The parser only gives programs that are well formed, and these never do what the grammar forbids:
the main block does not return, a value is only missing where a procedure was called for one or a
function came to the end of its body, and no routine has a name that a call would take for a
built-in function.

* `Routine.no_builtin`: a routine is not hidden by a built-in function, however its name is spelled.
* `parse_wellFormed`: all of this for a row of tokens. -/

namespace Pseudocode
set_option autoImplicit false

/-- The value that a well-formed function returns is always converted to its type. -/
theorem Routine.WellFormed.result_value {routine : Routine} (h : routine.WellFormed)
    (hkind : routine.kind = .function) (value : Value) (line : Nat) :
    ∃ ty, routine.returnType? = some ty ∧ routine.result (.returned (some value)) line =
      (value.coerce ty (.result routine.name) line).map some := by
  obtain ⟨ty, hty⟩ := Option.isSome_iff_exists.1 (h.returnType.2 hkind)
  refine ⟨ty, hty, ?_⟩
  simp only [Routine.result, hkind, hty]

theorem Routine.no_builtin {routine : Routine} (h : routine.WellFormed) {name : String}
    (hname : SameName routine.name name) : Builtin.find? name = none := by
  rw [← Builtin.find?_congr hname]
  exact Option.not_isSome_iff_eq_none.1 (Bool.eq_false_iff.1 h.name)

section Origin
variable {P : Nat → Prop} {routines : List Routine} {error : RuntimeError} {m : Machine}
  {name : String}

theorem RuntimeError.Origin.procedure (h : error.Origin P routines m)
    (hcause : error.cause = .noReturnValue name) :
    ∃ routine ∈ routines, routine.kind = .procedure ∧ SameName routine.name name := by
  cases h with
  | ordinary hother _ =>
    obtain rfl : _ = RuntimeCause.noReturnValue name := hcause
    cases hother
  | @noValue routine _ _ _ hmem hkind hname _ =>
    cases hcause
    exact ⟨routine, hmem, hkind, hname⟩
  | noReturn => cases hcause

/-- The body of a well-formed function that is left without a value came to its end. -/
theorem RuntimeError.Origin.function (h : error.Origin P routines m)
    (hroutines : ∀ routine ∈ routines, routine.WellFormed)
    (hcause : error.cause = .missingReturn name) :
    ∃ routine ∈ routines, ∃ depth inner ended, routine.kind = .function ∧ routine.name = name ∧
      execBlock (invoke depth) routine.body inner = .ok .normal ended ∧
      m = { ended with frames := m.frames } := by
  cases h with
  | ordinary hother _ =>
    obtain rfl : _ = RuntimeCause.missingReturn name := hcause
    cases hother
  | noValue => cases hcause
  | @noReturn routine depth inner ended _ flow hmem hkind hbody hvalue hm _ =>
    cases hcause
    have hproper := (hroutines routine hmem).body
    rw [hkind] at hproper
    obtain rfl := execBlock_function_normal hproper hbody hvalue
    exact ⟨routine, hmem, depth, inner, ended, hkind, rfl, hbody, hm⟩

end Origin

theorem parse_ok {P : Nat → Prop} {lexemes : List Lexeme} {program : Program}
    (hlexemes : LexemesOn P lexemes) (h : parse lexemes = .ok program) :
    program.OnLines P ∧ program.WellFormed := by
  have hbuilt := parse_built hlexemes
  rw [h] at hbuilt
  exact hbuilt

/-- A program that was parsed is well formed. Exactly its functions have a type of the value, to
which all that they return is converted. No spelling of the name of a routine is that of a built-in
function. The main block never returns. In a run, only calls of procedures of the program lack a
value, and only functions of the program lack a return, after their bodies came to an end. -/
theorem parse_wellFormed {lexemes : List Lexeme} {program : Program}
    (h : parse lexemes = .ok program) :
    program.WellFormed ∧
    (∀ routine ∈ program.routines,
      (routine.returnType?.isSome = true ↔ routine.kind = .function) ∧
      ∀ value line, routine.kind = .function → ∃ ty, routine.returnType? = some ty ∧
        routine.result (.returned (some value)) line =
          (value.coerce ty (.result routine.name) line).map some) ∧
    (∀ routine ∈ program.routines, ∀ name, SameName routine.name name →
      Builtin.find? name = none) ∧
    (∀ m flow m', runBlock program.statements m = .ok flow m' → flow = .normal) ∧
    ∀ inputs limits clock error m, program.run (.initial inputs limits clock) = .error error m →
      (∀ name, error.cause = .noReturnValue name →
        ∃ routine ∈ program.routines, routine.kind = .procedure ∧ SameName routine.name name) ∧
      (∀ name, error.cause = .missingReturn name →
        ∃ routine ∈ program.routines, ∃ depth inner ended, routine.kind = .function ∧
          routine.name = name ∧ execBlock (invoke depth) routine.body inner = .ok .normal ended ∧
          m = { ended with frames := m.frames }) := by
  have hlexemes : LexemesOn (fun _ => True) lexemes := fun _ _ => trivial
  obtain ⟨hlines, hwellFormed⟩ := parse_ok hlexemes h
  refine ⟨hwellFormed, ?_, ?_, ?_, ?_⟩
  · intro routine hmem
    have hroutine := hwellFormed.routines routine hmem
    exact ⟨hroutine.returnType, fun value line hkind => hroutine.result_value hkind value line⟩
  · intro routine hmem name hname
    exact Routine.no_builtin (hwellFormed.routines routine hmem) hname
  · intro m flow m' hrun
    exact runBlock_normal hwellFormed.statements hrun
  · intro inputs limits clock error m hrun
    have horigin := Program.run_origin hlines hrun
    exact ⟨fun name => horigin.procedure, fun name => horigin.function hwellFormed.routines⟩

/-- A function with a `RETOURNER` that is not reached. -/
theorem parse_wellFormed_function :
    let f : Routine := ⟨.function, "f", [], some .entier, [],
      [.branch (.literal (.boolean false) 1) [.ret (some (.literal (.integer 1) 1)) 1] none 1], 1⟩
    let program : Program := ⟨none, [], [], [f], [.write [.call "F" [] 1] 1]⟩
    let tokens : List Token :=
      [.keyword .fonction, .ident "f", .punct .lparen, .punct .rparen, .punct .colon, .type .entier,
        .keyword .si, .literal (.boolean false), .keyword .alors, .keyword .retourner,
        .literal (.integer 1), .keyword .finSi, .keyword .fin,
        .keyword .ecrire, .ident "F", .punct .lparen, .punct .rparen]
    let ending := program.run (.initial [] ⟨10, 1, none⟩ .steady)
    parse (tokens.map fun token => ⟨token, ⟨1, 1⟩⟩) = .ok program ∧
    ∃ m, ending = .error ⟨.missingReturn "f", 1⟩ m ∧
      ∃ depth inner ended, execBlock (invoke depth) f.body inner = .ok .normal ended ∧
        m = { ended with frames := m.frames } := by
  intro f program tokens ending
  have hparse : parse (tokens.map fun token => ⟨token, ⟨1, 1⟩⟩) = .ok program := by rfl
  obtain ⟨m, hrun⟩ : ∃ m, ending = .error ⟨.missingReturn "f", 1⟩ m := by
    dsimp only [ending, program, f]
    exact ⟨_, rfl⟩
  obtain ⟨-, -, -, -, herrors⟩ := parse_wellFormed hparse
  obtain ⟨routine, hmem, depth, inner, ended, -, -, hbody, hm⟩ :=
    (herrors [] ⟨10, 1, none⟩ .steady _ m hrun).2 "f" rfl
  obtain rfl := List.mem_singleton.1 hmem
  exact ⟨hparse, m, hrun, depth, inner, ended, hbody, hm⟩

end Pseudocode
