import Pseudocode.Machine.Loop
import Pseudocode.Proofs.Run

/-! # What is known of a name

Computations find a binding by its name and go by its type, its value and whether it is constant.
How its name was spelled when it was declared is of no account to them.

* `Machine.content?`: what is known of a name.
* `Run.target`: the type of a name that may be assigned to.
* `Run.load_eq` and the theorems after it: the computations in terms of these two. -/

namespace Pseudocode
set_option autoImplicit false
open Run

/-- The type, the value and the constancy of what a name stands for. -/
def Machine.content? (m : Machine) (name : String) : Option (Ty × Value × Bool) :=
  (m.resolve? name).map fun binding => (binding.ty, binding.value, binding.constant)

namespace Run

/-- The type of a name that may be assigned to. -/
def target (name : String) (line : Nat) : Run Ty := Binding.ty <$> resolveVariable name line

theorem load_eq (name : String) (line : Nat) :
    load name line = (do
      match (← get).content? name with
      | none => fail (.undeclaredVariable name) line
      | some (_, value, _) =>
        if value = .uninitialized then fail (.uninitializedVariable name) line
        else return value) := by
  funext m
  unfold load resolve Machine.content?
  rw [bind_assoc, get_bind, get_bind]
  cases m.resolve? name with
  | none => rfl
  | some binding => rfl

theorem target_eq (name : String) (line : Nat) :
    target name line = (do
      match (← get).content? name with
      | none => fail (.undeclaredVariable name) line
      | some (ty, _, constant) =>
        if constant then fail (.constantAssignment name) line else return ty) := by
  funext m
  unfold target resolveVariable resolve Machine.content?
  rw [map_eq_pure_bind, bind_assoc, bind_assoc, get_bind, get_bind]
  cases m.resolve? name with
  | none => rfl
  | some binding =>
    rw [pure_bind, Option.map_some]
    dsimp only
    split <;> rfl

theorem assign_eq (name : String) (value : Value) (line : Nat) :
    assign name value line = (do
      let ty ← target name line
      let converted ← lift (value.coerce ty (.var name) line)
      modify (·.set name converted)) := by
  unfold assign target
  rw [map_eq_pure_bind, bind_assoc]
  simp only [pure_bind]

theorem readInto_eq (name : String) (line : Nat) :
    readInto name line = (do
      let ty ← target name line
      let raw ← takeInput name line
      let value ← lift (Value.ofInput raw ty name line)
      assign name value line) := by
  unfold readInto target
  rw [map_eq_pure_bind, bind_assoc]
  simp only [pure_bind]

theorem checkCounter_eq (name : String) (line : Nat) :
    checkCounter name line = (do
      let ty ← target name line
      if ty = .entier then pure () else fail (.typeMismatch (.loopVariable name ty)) line) := by
  unfold checkCounter target
  rw [map_eq_pure_bind, bind_assoc]
  simp only [pure_bind]

end Run
end Pseudocode
