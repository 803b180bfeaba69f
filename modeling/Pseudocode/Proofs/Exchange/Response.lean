import Mathlib.Data.List.Nodup
import Pseudocode.Exchange.Message
import Pseudocode.Proofs.Declarations
import Pseudocode.Proofs.Exchange.RoundTrip
import Pseudocode.Proofs.Scope.Index

/-! # Responses lose nothing

What a run leaves is written as a document, in one line or in many. Both texts are read back as that
document, so the output, the error and the variables can be taken from them as they were; and since
no two variables have the same name, each of them is found by its own.

* `textual_response`: a response is a document that can be read back.
* `Outcome.names_distinct`: no two variables of a run have the same name.
* `response_read`: the response to a run of any source. -/

namespace Pseudocode
set_option autoImplicit false

/-! ## What a run leaves -/

/-- The variables of a run that came to some end are bound as they were declared, in order. -/
theorem Program.run_made_part (program : Program) (inputs : List String) (limits : Limits)
    (clock : Clock) :
    ∃ part, part <+: program.declared ∧
      (Ending.machine (program.run (.initial inputs limits clock))).globals.Made part := by
  have hprepared := program.declares_prepare [] (.initial inputs limits clock) .nil
  cases hm : program.prepare (.initial inputs limits clock) with
  | ok _ m =>
    rw [hm] at hprepared
    exact ⟨_, List.prefix_refl _, program.run_made hm hprepared⟩
  | error e m =>
    -- the run ended before its main block
    rw [hm] at hprepared
    rw [run_eq_prepare, Run.bind_error hm]
    exact hprepared

theorem Environment.Made.names {env : Environment} {declared : List Declared}
    (h : env.Made declared) : env.snapshot.map Variable.name = declared.map Declared.name := by
  have hnames : List.Forall₂ (fun declared binding => declared = binding)
      (declared.map Declared.name) (env.bindings.map Binding.name) := by
    rw [List.forall₂_map_left_iff, List.forall₂_map_right_iff]
    exact h.imp fun _ _ hbinds => hbinds.name.symm
  rw [List.forall₂_eq_eq_eq] at hnames
  rw [hnames, Environment.snapshot, List.map_map]
  rfl

theorem Outcome.ofResult_snapshot (ending : Ending Unit) :
    (Outcome.ofResult ending).snapshot = (Ending.machine ending).globals.snapshot := by
  cases ending <;> rfl

theorem Environment.Keyed.snapshot_names {env : Environment} (h : env.Keyed) :
    (env.snapshot.map Variable.name).Nodup := by
  have hdistinct := h.names_distinct
  unfold Environment.snapshot
  rw [List.map_map]
  rw [List.Nodup, List.pairwise_map] at hdistinct ⊢
  exact hdistinct.imp fun hkeys hsame => hkeys (congrArg Text.nameKey hsame)

/-- What there is to say of the names that a source leaves: there are none without a run, and after
one they are the first of those that the program declares. -/
def NamesDeclared (source : String) (names : List String) : Prop :=
  match parseSource source with
  | .ok program => names <+: program.declared.map Declared.name
  | .error _ => names = []

/-- No two variables have the same name, and they stand in the order of their declaration. -/
theorem execute_names (source : String) (inputs : List String) (limits : Limits) (clock : Clock) :
    ((execute source inputs limits clock).snapshot.map Variable.name).Nodup ∧
      NamesDeclared source ((execute source inputs limits clock).snapshot.map Variable.name) := by
  unfold NamesDeclared execute
  cases parseSource source with
  | error failure => exact ⟨List.nodup_nil, rfl⟩
  | ok program =>
    have hkeyed := program.run_keyed (m := .initial inputs limits clock) Environment.keyed_empty
    obtain ⟨part, hpart, hmade⟩ := program.run_made_part inputs limits clock
    dsimp only
    rw [Outcome.ofResult_snapshot]
    exact ⟨hkeyed.snapshot_names, hmade.names ▸ hpart.map Declared.name⟩

namespace Exchange

/-! ## Responses as documents -/

theorem textual_variable (entry : Variable) : Textual (variableJson entry) := by
  refine .object (fun member hmember => ?_) fun member hmember => ?_
  · rcases List.mem_pair.1 hmember with rfl | rfl
    · exact ⟨_, rfl⟩
    · exact ⟨_, rfl⟩
  · rcases List.mem_pair.1 hmember with rfl | rfl
    · exact .text _
    · dsimp only
      split
      · exact .null
      · exact .text _

theorem textual_response (outcome : Outcome) : Textual (response outcome) := by
  have hvariables : Textual (.object
      (outcome.snapshot.map fun entry => (some entry.name, variableJson entry))) := by
    refine .object (fun member hmember => ?_) fun member hmember => ?_
    all_goals obtain ⟨entry, -, rfl⟩ := List.mem_map.1 hmember
    · exact ⟨_, rfl⟩
    · exact textual_variable entry
  refine .object (fun member hmember => ?_) fun member hmember => ?_
  all_goals rcases List.mem_cons.1 hmember with rfl | hmember
  · exact ⟨_, rfl⟩
  · rcases List.mem_pair.1 hmember with rfl | rfl
    · exact ⟨_, rfl⟩
    · exact ⟨_, rfl⟩
  · exact .text _
  · rcases List.mem_pair.1 hmember with rfl | rfl
    · dsimp only
      split
      · exact .text _
      · exact .null
    · exact hvariables

/-- A member of an object that tells a variable: its type, and its printed value unless there is
none. -/
def Tells (member : Content × Json) (entry : Variable) : Prop :=
  ∃ value, member = (some entry.name,
      .object [(some "type", .ofText entry.ty.keyword), (some "value", value)]) ∧
    (value = .null ↔ entry.value = .uninitialized) ∧
    (value = .null ∨ value = .ofText entry.value.text)

theorem tells_variable (entry : Variable) : Tells (some entry.name, variableJson entry) entry := by
  refine ⟨_, rfl, ?_⟩
  split <;> simp_all [Json.ofText]

/-- The response to a run of any source is one document in either layout. It has the output as it
was written; the error is null exactly if the run succeeded, and the message otherwise; and it tells
the variables one by one, in the order of their declaration, under names that are all different. -/
theorem response_read (source : String) (inputs : List String) (limits : Limits) (clock : Clock) :
    let outcome := execute source inputs limits clock
    ∃ (error : Json) (members : List (Content × Json)),
      let document : Json := .object [(some "output", .ofText outcome.output),
        (some "error", error), (some "variables", .object members)]
      Json.read? ((response outcome).write .compact) = some document ∧
      Json.read? ((response outcome).write .pretty) = some document ∧
      (error = .null ↔ outcome.failure = none) ∧
      (error = .null ∨ ∃ failure, outcome.failure = some failure ∧
        error = .ofText failure.message) ∧
      (members.map Prod.fst).Nodup ∧
      List.Forall₂ Tells members outcome.snapshot ∧
      NamesDeclared source (outcome.snapshot.map Variable.name) := by
  intro outcome
  have htextual := textual_response outcome
  obtain ⟨hdistinct, hdeclared⟩ := execute_names source inputs limits clock
  refine ⟨_, _, read?_write Layout.spaced_compact htextual,
    read?_write Layout.spaced_pretty htextual, ?_, ?_, ?_, ?_, hdeclared⟩
  · cases outcome.failure <;> simp [Json.ofText]
  · cases outcome.failure with
    | none => exact .inl rfl
    | some failure => exact .inr ⟨failure, rfl, rfl⟩
  · have hinjective : Function.Injective (some : String → Content) := fun _ _ => Option.some.inj
    have hnames := List.Nodup.map hinjective hdistinct
    rw [List.map_map] at hnames ⊢
    exact hnames
  · rw [List.forall₂_map_left_iff]
    exact List.forall₂_same.2 fun entry _ => tells_variable entry

end Exchange
end Pseudocode
