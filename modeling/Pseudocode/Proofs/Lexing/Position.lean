import Mathlib.Data.List.Induction
import Pseudocode.Token

/-! Places in a source. A place is reached one character at a time; here it is counted from all
that stands before it, and places further on come later. -/

namespace Pseudocode
namespace Span
set_option autoImplicit false

/-! ## The place after a text -/

/-- The first place of a source. -/
def start : Span := ⟨1, 1⟩

/-- The place after a character. -/
def next (span : Span) (c : Char) : Span :=
  if c = '\n' then ⟨span.line + 1, 1⟩ else ⟨span.line, span.column + 1⟩

/-- The place of the character that follows `before`: its line counts the line feeds before it, its
column the characters since the last of them. -/
def after (before : List Char) : Span :=
  ⟨1 + before.count '\n', 1 + (before.reverse.takeWhile (· != '\n')).length⟩

theorem after_append_singleton (before : List Char) (c : Char) :
    after (before ++ [c]) = (after before).next c := by
  by_cases hc : c = '\n'
  · simp [after, next, hc, Nat.add_assoc]
  · simp only [after, next, hc, List.count_append, List.reverse_append, if_false]
    simp [hc, Nat.add_comm]

theorem foldl_next (before text : List Char) :
    text.foldl next (after before) = after (before ++ text) := by
  induction text generalizing before with
  | nil => simp
  | cons c text ih =>
    have hstep := ih (before ++ [c])
    rw [after_append_singleton] at hstep
    rw [List.foldl_cons, hstep, List.append_assoc, List.singleton_append]

/-! ## Order -/

/-- Whether a place comes before another one: on an earlier line, or further left on the same. -/
def Before (s t : Span) : Prop :=
  s.line < t.line ∨ s.line = t.line ∧ s.column < t.column

theorem Before.trans {s t u : Span} (hst : s.Before t) (htu : t.Before u) : s.Before u := by
  unfold Before at *
  omega

theorem before_next (s : Span) (c : Char) : s.Before (s.next c) := by
  unfold Before next
  split <;> simp

/-- Text that is not empty leads to a later place. -/
theorem after_before_after (before : List Char) {text : List Char} (htext : text ≠ []) :
    (after before).Before (after (before ++ text)) := by
  induction text using List.reverseRecOn with
  | nil => exact absurd rfl htext
  | append_singleton text c ih =>
    have hlast := before_next (after (before ++ text)) c
    rw [← after_append_singleton, List.append_assoc] at hlast
    by_cases hempty : text = []
    · simpa [hempty] using hlast
    · exact (ih hempty).trans hlast

end Span
end Pseudocode
