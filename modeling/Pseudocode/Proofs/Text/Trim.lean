import Mathlib.Data.List.DropRight
import Pseudocode.Text.Blank

/-! The white space at the two ends of a text, told by what is left between them and not by how it
is taken away. -/

namespace Pseudocode.Text
set_option autoImplicit false

variable {cs inner : List Char}

/-- `inner` is what is left of `cs` without the white space at its two ends. -/
structure Trimmed (cs inner : List Char) : Prop where
  around : ∃ front back, cs = front ++ inner ++ back ∧ (∀ c ∈ front, isBlank c = true) ∧
    ∀ c ∈ back, isBlank c = true
  first : ∀ c ∈ inner.head?, isBlank c = false
  last : ∀ c ∈ inner.getLast?, isBlank c = false

theorem isBlank_head_dropWhile {c : Char} (h : c ∈ (cs.dropWhile isBlank).head?) :
    isBlank c = false := by
  have hhead := List.head?_dropWhile_not isBlank cs
  rw [Option.mem_def.mp h] at hhead
  simpa using hhead

theorem trimmed_trim (cs : List Char) : Trimmed cs (trim cs) := by
  have hprefix : trim cs <+: cs.dropWhile isBlank := List.rdropWhile_prefix isBlank _
  constructor
  · have hback : trim cs ++ (cs.dropWhile isBlank).rtakeWhile isBlank = cs.dropWhile isBlank :=
      List.rdropWhile_append_rtakeWhile
    refine ⟨cs.takeWhile isBlank, (cs.dropWhile isBlank).rtakeWhile isBlank, ?_, ?_, ?_⟩
    · rw [List.append_assoc, hback, List.takeWhile_append_dropWhile]
    · exact fun c hc => List.mem_takeWhile_imp hc
    · exact fun c hc => List.mem_rtakeWhile_imp hc
  · intro c hc
    obtain ⟨back, hback⟩ := hprefix
    apply isBlank_head_dropWhile
    rw [← hback, List.head?_append, Option.mem_def.mp hc]
    rfl
  · intro c hc
    rw [trim, List.getLast?_reverse] at hc
    exact isBlank_head_dropWhile hc

theorem dropWhile_eq_self (h : ∀ c ∈ inner.head?, isBlank c = false) :
    inner.dropWhile isBlank = inner := by
  cases inner with
  | nil => rfl
  | cons c inner =>
    have hc := h c rfl
    rw [List.dropWhile_cons_of_neg (by simp [hc])]

/-- There is only one such text. -/
theorem Trimmed.eq_trim (h : Trimmed cs inner) : inner = trim cs := by
  obtain ⟨⟨front, back, rfl, hfront, hback⟩, hfirst, hlast⟩ := h
  rw [trim, List.append_assoc, List.dropWhile_append_of_pos hfront]
  by_cases hinner : inner = []
  · subst hinner
    rw [List.nil_append, List.dropWhile_eq_nil_iff.mpr hback]
    rfl
  · have hhead : ∀ c ∈ (inner ++ back).head?, isBlank c = false := by
      rwa [List.head?_append_of_ne_nil _ hinner]
    have hreverse : ∀ c ∈ inner.reverse.head?, isBlank c = false := by
      rwa [List.head?_reverse]
    have hblank : ∀ c ∈ back.reverse, isBlank c = true :=
      fun c hc => hback c (List.mem_reverse.mp hc)
    rw [dropWhile_eq_self hhead, List.reverse_append, List.dropWhile_append_of_pos hblank,
      dropWhile_eq_self hreverse, List.reverse_reverse]

/-- A text without white space is left as it is. -/
theorem trim_of_no_blank (h : ∀ c ∈ cs, isBlank c = false) : trim cs = cs := by
  have htrimmed : Trimmed cs cs :=
    ⟨⟨[], [], by simp, by simp, by simp⟩, fun c hc => h c (List.mem_of_mem_head? hc),
      fun c hc => h c (List.mem_of_getLast? hc)⟩
  exact htrimmed.eq_trim.symm

end Pseudocode.Text
