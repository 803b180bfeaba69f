import Pseudocode.Proofs.Likeness.Run

/-! # Where errors come from

Every error of a run stems from some node of the program, and takes its line from there. The two
that are about routines without a result also say something about the routine: one is a procedure
that was called for its value, the other a function whose body ended without one. To see this, the
run of a program is compared with itself.

* `RuntimeError.Origin`: what an error stems from.
* `Program.run_origin`: every error of a run has an origin. -/

namespace Pseudocode
set_option autoImplicit false

/-- What an error stems from, which left the machine behind: a node on a line with the property, or
a routine among those given that yields no value. -/
inductive RuntimeError.Origin (P : Nat → Prop) (routines : List Routine) :
    RuntimeError → Machine → Prop where
  | ordinary {cause : RuntimeCause} {line : Nat} {m : Machine} :
      cause.isReturn = false → P line → Origin P routines ⟨cause, line⟩ m
  | noValue {routine : Routine} {name : String} {line : Nat} {m : Machine} :
      routine ∈ routines → routine.kind = .procedure → SameName routine.name name → P line →
      Origin P routines ⟨.noReturnValue name, line⟩ m
  /-- The body of a function ended, and since then calls were only left. -/
  | noReturn {routine : Routine} {depth : Nat} {inner ended m : Machine} {flow : Flow} :
      routine ∈ routines → routine.kind = .function →
      execBlock (invoke depth) routine.body inner = .ok flow ended →
      (∀ value, flow ≠ .returned (some value)) → m = { ended with frames := m.frames } →
      P routine.line → Origin P routines ⟨.missingReturn routine.name, routine.line⟩ m

namespace RuntimeError.Origin
variable {P : Nat → Prop} {routines : List Routine} {error : RuntimeError} {m : Machine}

theorem on_line (h : error.Origin P routines m) : P error.line := by
  cases h with
  | ordinary _ hline => exact hline
  | noValue _ _ _ hline => exact hline
  | noReturn _ _ _ _ _ hline => exact hline

theorem pop (h : error.Origin P routines m) : error.Origin P routines m.pop := by
  cases h with
  | ordinary hcause hline => exact .ordinary hcause hline
  | noValue hmem hkind hname hline => exact .noValue hmem hkind hname hline
  | noReturn hmem hkind hbody hvalue hm hline =>
    exact .noReturn hmem hkind hbody hvalue (congrArg Machine.pop hm) hline

end RuntimeError.Origin

/-- The comparison of a run with itself that keeps track of what errors stem from. -/
def origins (P : Nat → Prop) (routines : List Routine) : Likeness where
  line l _ := P l
  known routine routine' := routine ∈ routines ∧ Routine.Alike (fun l _ => P l) routine routine'
  blame := RuntimeError.Origin P routines
  alike h := h.2
  ordinary _ hcause hline := .ordinary hcause hline
  noValue _ hknown hkind hname hline := .noValue hknown.1 hkind hname hline
  noReturn hknown hkind hbody hvalue := .noReturn hknown.1 hkind hbody hvalue rfl hknown.2.line
  pop h := h.pop

/-- What the errors of a program on lines with a property stem from. -/
theorem Program.run_origin {P : Nat → Prop} {program : Program} (h : program.OnLines P)
    {inputs : List String} {limits : Limits} {clock : Clock} {error : RuntimeError} {m : Machine}
    (hrun : program.run (.initial inputs limits clock) = .error error m) :
    error.Origin P program.routines m := by
  let pair := origins P program.routines
  -- a line corresponds to itself just if it has the property, so every node has to be on such a line
  have hline (l : Nat) (hl : P l) : pair.line l l := hl
  have hself : Program.Alike pair.line program program := Program.alike_self hline h
  have hknown : List.Forall₂ pair.known program.routines program.routines :=
    List.forall₂_same.2 fun routine hmem =>
      ⟨hmem, Routine.alike_self hline (h.routines routine hmem)⟩
  have hstart := Machine.alike_initial pair.known inputs limits clock
  have hruns := Likeness.run hself hknown _ _ hstart
  rw [hrun] at hruns
  cases hruns with
  | error hfailed _ => exact hfailed.2

end Pseudocode
