import Mathlib.Data.List.Nodup
import Pseudocode.Token.Vocabulary

/-! # The fixed spellings

When a fixed spelling stands at the front of a text, and what is known of all of them by going
through the vocabulary.

* `Spelling.stands_iff`: a spelling stands where there is a text that it spells.
* `vocabulary_spells`: what every spelling is like.
* `spelling_unique`: no text is spelled in two ways. -/

namespace Pseudocode
set_option autoImplicit false

/-- A character of a source as a spelling sees it. -/
def Spelling.seen (spelling : Spelling) (c : Char) : Char :=
  if spelling.exact then c else foldCase c

/-! ## Where a spelling stands -/

theorem startsWith_iff_prefix (seen : Char → Char) (text cs : List Char) :
    startsWith (fun t c => t == seen c) text cs = true ↔ text <+: cs.map seen := by
  induction text generalizing cs with
  | nil => simp [startsWith]
  | cons t text ih => cases cs with
    | nil => simp [startsWith]
    | cons c cs => simp [startsWith, ih, List.cons_prefix_cons]

theorem Spelling.seen_of_exact {s : Spelling} (h : s.exact = true) : s.seen = id := by
  funext c
  simp [Spelling.seen, h]

theorem Spelling.seen_of_word {s : Spelling} (h : s.exact = false) : s.seen = foldCase := by
  funext c
  simp [Spelling.seen, h]

theorem Spelling.stands_iff_prefix (s : Spelling) (cs : List Char) :
    s.stands cs = true ↔ s.text <+: cs.map s.seen := by
  cases hexact : s.exact
  · rw [Spelling.seen_of_word hexact]
    simp [Spelling.stands, hexact, startsWith_iff_prefix foldCase]
  · rw [Spelling.seen_of_exact hexact]
    simp [Spelling.stands, hexact, startsWith_iff_prefix fun c => c]

theorem Spelling.stands_iff (s : Spelling) (cs : List Char) :
    s.stands cs = true ↔ ∃ text rest, cs = text ++ rest ∧ text.map s.seen = s.text := by
  rw [s.stands_iff_prefix]
  constructor
  · rintro ⟨rest, hrest⟩
    have hsplit := List.map_eq_append_iff.mp hrest.symm
    obtain ⟨text, rest, rfl, htext, -⟩ := hsplit
    exact ⟨text, rest, rfl, htext⟩
  · rintro ⟨text, rest, rfl, htext⟩
    rw [List.map_append, htext]
    exact List.prefix_append ..

theorem Spelling.seen_space (s : Spelling) : s.seen ' ' = ' ' := by
  cases h : s.exact
  · rw [Spelling.seen_of_word h]
    decide
  · rw [Spelling.seen_of_exact h]
    rfl

theorem Spelling.seen_feed (s : Spelling) : s.seen '\n' = '\n' := by
  unfold Spelling.seen
  split <;> rfl

/-! ## All spellings -/

/-- Whether a character is a digit, a quote or a space, with which no fixed spelling begins. -/
def spellsNothing (c : Char) : Bool :=
  c.isDigit || c == '"' || c == '\'' || c == ' '

/-- A spelling is not empty, holds no space and begins with none of these characters, and the only
one with a line feed is the one that ends a line. In one statement, for which the texts are worked
out from the strings of the vocabulary once. -/
theorem vocabulary_spells : ∀ s ∈ vocabulary, s.text ≠ [] ∧ ' ' ∉ s.text ∧
    s.text.head?.map spellsNothing ≠ some true ∧
    ('\n' ∈ s.text ∨ s.token = .newline →
      s.exact = true ∧ s.text = ['\n'] ∧ s.token = .newline) := by
  decide +kernel

theorem vocabulary_text_ne_nil : ∀ s ∈ vocabulary, s.text ≠ [] :=
  fun s hs => (vocabulary_spells s hs).1

theorem vocabulary_no_space : ∀ s ∈ vocabulary, ' ' ∉ s.text :=
  fun s hs => (vocabulary_spells s hs).2.1

theorem vocabulary_head_spells : ∀ s ∈ vocabulary, s.text.head?.map spellsNothing ≠ some true :=
  fun s hs => (vocabulary_spells s hs).2.2.1

theorem vocabulary_newline : ∀ s ∈ vocabulary, '\n' ∈ s.text ∨ s.token = .newline →
    s.exact = true ∧ s.text = ['\n'] ∧ s.token = .newline :=
  fun s hs => (vocabulary_spells s hs).2.2.2

/-- The characters of a text as the digits of one number. -/
def textNumber (text : List Char) : Nat := text.foldl (fun n c => n * 1114112 + c.toNat) 0

theorem vocabulary_nodup : (vocabulary.map fun s => (s.exact, s.text)).Nodup := by
  -- two numbers are told apart at once, two texts one character after the other
  refine .of_map (fun (exact, text) => (exact, textNumber text)) ?_
  decide +kernel

theorem exact_text_not_word : ∀ s ∈ vocabulary, s.exact = true →
    ∀ t ∈ vocabulary, t.exact = false → s.text.map foldCase ≠ t.text := by decide +kernel

/-- No text is spelled in two ways. -/
theorem spelling_unique {s t : Spelling} {text : List Char} (hs : s ∈ vocabulary)
    (ht : t ∈ vocabulary) (hstext : text.map s.seen = s.text) (httext : text.map t.seen = t.text) :
    s = t := by
  apply List.inj_on_of_nodup_map vocabulary_nodup hs ht
  cases hsexact : s.exact <;> cases htexact : t.exact
  all_goals simp only [Spelling.seen_of_exact, Spelling.seen_of_word, hsexact, htexact,
    List.map_id] at hstext httext
  · rw [← hstext, ← httext]
  · rw [httext] at hstext
    exact absurd hstext (exact_text_not_word t ht htexact s hs hsexact)
  · rw [hstext] at httext
    exact absurd httext (exact_text_not_word s hs hsexact t ht htexact)
  · rw [← hstext, ← httext]

end Pseudocode
