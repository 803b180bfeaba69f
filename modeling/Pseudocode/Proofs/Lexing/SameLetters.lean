import Pseudocode.Proofs.Lexing.Written
import Pseudocode.Text.Lowercase

/-! # Texts in other letters

Two texts may differ in the case of ASCII letters only. A scan that does not see the case of a
letter goes as far in the one as in the other.

* `IgnoresCase`: a property of characters that does not see it.
* `SameLetters`: two texts that differ in nothing else. -/

namespace Pseudocode
set_option autoImplicit false

/-! ## Characters -/

theorem isAlpha_iff {c : Char} : c.isAlpha = true ↔
    65 ≤ c.toNat ∧ c.toNat ≤ 90 ∨ 97 ≤ c.toNat ∧ c.toNat ≤ 122 := by
  have hupper : c.isUpper = true ↔ 65 ≤ c.toNat ∧ c.toNat ≤ 90 := decide_eq_true_iff
  have hlower : c.isLower = true ↔ 97 ≤ c.toNat ∧ c.toNat ≤ 122 :=
    Bool.and_eq_true_iff.trans (and_congr decide_eq_true_iff decide_eq_true_iff)
  show (c.isUpper || c.isLower) = true ↔ _
  rw [Bool.or_eq_true, hupper, hlower]

theorem toNat_toLower (c : Char) :
    c.toLower.toNat = if 65 ≤ c.toNat ∧ c.toNat ≤ 90 then c.toNat + 32 else c.toNat := by
  unfold Char.toLower
  split
  · next h =>
    obtain ⟨hlow, hhigh⟩ : 65 ≤ c.val.toNat ∧ c.val.toNat ≤ 90 := h
    have hsum : (c.val + ('a'.val - 'A'.val)).toNat = (c.val.toNat + 32) % 2 ^ 32 :=
      UInt32.toNat_add ..
    rw [if_pos ⟨hlow, hhigh⟩]
    show (c.val + ('a'.val - 'A'.val)).toNat = c.val.toNat + 32
    omega
  · next h =>
    have hcapital : ¬(65 ≤ c.toNat ∧ c.toNat ≤ 90) := h
    rw [if_neg hcapital]

/-- Only letters have a case. -/
theorem eq_or_isAlpha {c d : Char} (h : c.toLower = d.toLower) :
    c = d ∨ c.isAlpha = true ∧ d.isAlpha = true := by
  have hnat := congrArg Char.toNat h
  rw [toNat_toLower, toNat_toLower] at hnat
  by_cases hcd : c.toNat = d.toNat
  · exact .inl (Char.toNat_inj.1 hcd)
  · refine .inr ?_
    rw [isAlpha_iff, isAlpha_iff]
    split at hnat <;> split at hnat <;> omega

theorem eq_of_not_alpha {c d : Char} (h : c.toLower = d.toLower) (hc : c.isAlpha = false) :
    c = d := by
  rcases eq_or_isAlpha h with rfl | ⟨halpha, -⟩
  · rfl
  · simp [halpha] at hc

theorem ne_of_ne {c d mark : Char} (h : c.toLower = d.toLower) (hmark : mark.isAlpha = false)
    (hc : c ≠ mark) : d ≠ mark := by
  rintro rfl
  exact hc (eq_of_not_alpha h.symm hmark).symm

/-- Whether a property of characters does not depend on the case of ASCII letters. -/
def IgnoresCase {α : Type} (f : Char → α) : Prop := ∀ c d, c.toLower = d.toLower → f c = f d

theorem ignoresCase_of_letters {α : Type} {f : Char → α} (a : α)
    (h : ∀ c, c.isAlpha = true → f c = a) : IgnoresCase f := by
  intro c d hcd
  rcases eq_or_isAlpha hcd with rfl | ⟨hc, hd⟩
  · rfl
  · rw [h c hc, h d hd]

theorem ignoresCase_nameStart : IgnoresCase isNameStart :=
  ignoresCase_of_letters true fun c hc => by simp [isNameStart, hc]

theorem ignoresCase_nameRest : IgnoresCase isNameRest :=
  ignoresCase_of_letters true fun c hc => by simp [isNameRest, isNameStart, hc]

theorem isDigit_of_isAlpha {c : Char} (h : c.isAlpha = true) : c.isDigit = false :=
  isDigit_of_letter (by simp [isNameStart, h])

theorem isAlpha_of_isDigit {c : Char} (h : c.isDigit = true) : c.isAlpha = false := by
  by_contra halpha
  simp [isDigit_of_isAlpha (Bool.of_not_eq_false halpha)] at h

theorem ignoresCase_digit : IgnoresCase Char.isDigit :=
  ignoresCase_of_letters false fun _ => isDigit_of_isAlpha

theorem ignoresCase_space : IgnoresCase isSpace :=
  ignoresCase_of_letters false fun c hc => isSpace_of_letter (by simp [isNameStart, hc])

theorem ignoresCase_line : IgnoresCase (· != '\n') :=
  ignoresCase_of_letters true fun c hc => by
    rw [bne_iff_ne]
    rintro rfl
    exact absurd hc (by decide)

theorem ignoresCase_foldCase : IgnoresCase foldCase := by
  have hletter : ∀ c : Char, c.isAlpha = true → foldCase c = c.toLower := by
    intro c hc
    have hrange := isAlpha_iff.1 hc
    have hs : c ≠ 'ſ' := by
      rintro rfl
      exact absurd hc (by decide)
    have hbig : ¬('À' ≤ c ∧ c ≤ 'Þ' ∧ c ≠ '×') := by
      rintro ⟨hle, -⟩
      have hnat : 192 ≤ c.toNat := hle
      omega
    rw [foldCase, if_neg hs, if_neg hbig]
  intro c d hcd
  rcases eq_or_isAlpha hcd with rfl | ⟨hc, hd⟩
  · rfl
  · rw [hletter c hc, hletter d hd, hcd]

/-! ## Rows of characters -/

/-- Two rows that are the same up to the case of their ASCII letters. -/
inductive SameLetters : List Char → List Char → Prop where
  | nil : SameLetters [] []
  | cons {c d : Char} {cs cs' : List Char} : c.toLower = d.toLower → SameLetters cs cs' →
      SameLetters (c :: cs) (d :: cs')

namespace SameLetters
variable {cs cs' : List Char}

theorem refl (cs : List Char) : SameLetters cs cs := by
  induction cs with
  | nil => exact .nil
  | cons c cs ih => exact .cons rfl ih

theorem symm (h : SameLetters cs cs') : SameLetters cs' cs := by
  induction h with
  | nil => exact .nil
  | cons hc _ ih => exact .cons hc.symm ih

theorem length_eq (h : SameLetters cs cs') : cs.length = cs'.length := by
  induction h with
  | nil => rfl
  | cons _ _ ih => exact congrArg Nat.succ ih

theorem append {rest rest' : List Char} (h : SameLetters cs cs') (hrest : SameLetters rest rest') :
    SameLetters (cs ++ rest) (cs' ++ rest') := by
  induction h with
  | nil => exact hrest
  | cons hc _ ih => exact .cons hc ih

theorem of_append {text rest : List Char} (h : SameLetters (text ++ rest) cs') :
    ∃ text' rest', cs' = text' ++ rest' ∧ SameLetters text text' ∧ SameLetters rest rest' := by
  induction text generalizing cs' with
  | nil => exact ⟨[], cs', rfl, .nil, h⟩
  | cons c text ih =>
    cases h with
    | cons hc hrest =>
      obtain ⟨text', rest', rfl, htext, hrest⟩ := ih hrest
      exact ⟨_ :: text', rest', rfl, .cons hc htext, hrest⟩

theorem take (n : Nat) (h : SameLetters cs cs') : SameLetters (cs.take n) (cs'.take n) := by
  induction h generalizing n with
  | nil => simpa using refl []
  | cons hc _ ih =>
    cases n with
    | zero => exact .nil
    | succ n => exact .cons hc (ih n)

theorem map {α : Type} {f : Char → α} (hf : IgnoresCase f) (h : SameLetters cs cs') :
    cs.map f = cs'.map f := by
  induction h with
  | nil => rfl
  | cons hc _ ih => rw [List.map_cons, List.map_cons, hf _ _ hc, ih]

theorem sameAsciiWord (h : SameLetters cs cs') :
    Text.sameAsciiWord (String.ofList cs) (String.ofList cs') = true := by
  have hlower := h.map (f := Char.toLower) fun _ _ hc => hc
  simp [Text.sameAsciiWord, hlower]

theorem takeWhile {p : Char → Bool} (hp : IgnoresCase p) (h : SameLetters cs cs') :
    SameLetters (cs.takeWhile p) (cs'.takeWhile p) := by
  induction h with
  | nil => exact .nil
  | @cons c d _ _ hc _ ih =>
    rw [List.takeWhile_cons, List.takeWhile_cons, ← hp c d hc]
    split
    · exact .cons hc ih
    · exact .nil

theorem dropWhile {p : Char → Bool} (hp : IgnoresCase p) (h : SameLetters cs cs') :
    SameLetters (cs.dropWhile p) (cs'.dropWhile p) := by
  induction h with
  | nil => exact .nil
  | @cons c d _ _ hc hrest ih =>
    rw [List.dropWhile_cons, List.dropWhile_cons, ← hp c d hc]
    split
    · exact ih
    · exact .cons hc hrest

theorem eq_of_no_letters (h : SameLetters cs cs') (hcs : ∀ c ∈ cs, c.isAlpha = false) :
    cs' = cs := by
  induction h with
  | nil => rfl
  | cons hc _ ih =>
    obtain ⟨hfirst, hrest⟩ := List.forall_mem_cons.1 hcs
    rw [← eq_of_not_alpha hc hfirst, ih hrest]

/-- A mark stays. -/
theorem cons_mark {c : Char} (h : SameLetters (c :: cs) cs') (hc : c.isAlpha = false) :
    ∃ rest, cs' = c :: rest ∧ SameLetters cs rest := by
  cases h with
  | cons hcd hrest => exact ⟨_, by rw [← eq_of_not_alpha hcd hc], hrest⟩

theorem digits (h : SameLetters cs cs') : cs'.takeWhile Char.isDigit = cs.takeWhile Char.isDigit :=
  (h.takeWhile ignoresCase_digit).eq_of_no_letters fun _ hc =>
    isAlpha_of_isDigit (List.mem_takeWhile_imp hc)

theorem prefix_of_no_letters {text : List Char} (h : SameLetters cs cs')
    (htext : ∀ c ∈ text, c.isAlpha = false) (hfront : text <+: cs) : text <+: cs' := by
  have htake := h.take text.length
  rw [← List.prefix_iff_eq_take.1 hfront] at htake
  rw [← htake.eq_of_no_letters htext]
  exact List.take_prefix ..

theorem foldl_next (h : SameLetters cs cs') (span : Span) :
    cs.foldl Span.next span = cs'.foldl Span.next span := by
  induction h generalizing span with
  | nil => rfl
  | @cons c d _ _ hc _ ih =>
    have hfeed : c = '\n' ↔ d = '\n' := by
      constructor
      · rintro rfl
        exact (eq_of_not_alpha hc rfl).symm
      · rintro rfl
        exact (eq_of_not_alpha hc.symm rfl).symm
    have hnext : span.next c = span.next d := by simp only [Span.next, hfeed]
    rw [List.foldl_cons, List.foldl_cons, hnext, ih]

end SameLetters

end Pseudocode
