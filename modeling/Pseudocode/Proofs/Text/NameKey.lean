import Pseudocode.Builtin

/-! # Two ways to leave letter case out of account

Declared names are compared by their keys, in which all letters are small, and the names of built-in
functions up to the case of their ASCII letters alone. The two disagree about the letter `k`, which
is also the small letter of the Kelvin sign, and agree on every word that has none: no other letter
beyond ASCII has an ASCII letter for its small one. No name of a built-in function has a `k`.

* `lowercase_eq_iff`: a word without `k` is the key of a name if it is the name up to ASCII case.
* `Builtin.find?_congr`: names with one key are names of the same built-in function. -/

namespace Pseudocode
set_option autoImplicit false

/-- Two names that programs do not tell apart. -/
def SameName (a b : String) : Prop := Text.nameKey a = Text.nameKey b

instance (a b : String) : Decidable (SameName a b) :=
  inferInstanceAs (Decidable (Text.nameKey a = Text.nameKey b))

theorem SameName.refl (name : String) : SameName name name := rfl

namespace Text

/-! ## Single characters -/

/-- An ASCII character that is the small letter of no other characters than its ASCII capital. -/
def Plain (c : Char) : Prop := c.toNat < 128 ∧ c ≠ 'k'

instance : DecidablePred Plain := fun c => inferInstanceAs (Decidable (c.toNat < 128 ∧ c ≠ 'k'))

theorem toLower_of_not_ascii {c : Char} (h : 128 ≤ c.toNat) : c.toLower = c := by
  have hupper : ¬(c.val ≥ 'A'.val ∧ c.val ≤ 'Z'.val) := by
    rintro ⟨-, hle⟩
    have hnat : c.val.toNat ≤ 90 := hle
    have hbig : 128 ≤ c.val.toNat := h
    omega
  unfold Char.toLower
  rw [dif_neg hupper]

/-- The small letters of the table are code points, and only that of the Kelvin sign is ASCII. -/
theorem lowerTable_rows : ∀ row ∈ lowerTable,
    128 ≤ row.1 ∧ 0 ≤ (row.1 : Int) + row.2.2.2 ∧
      (row.2.1 + row.2.2.2 < 0xD800 ∨
        0xDFFF < row.1 + row.2.2.2 ∧ row.2.1 + row.2.2.2 < 0x110000) ∧
      (128 ≤ row.1 + row.2.2.2 ∨ row.1 = row.2.1 ∧ row.1 + row.2.2.2 = 0x6B) := by
  decide +kernel

theorem toNat_ofNat {n : Nat} (h : n.isValidChar) : (Char.ofNat n).toNat = n := by
  unfold Char.ofNat
  rw [dif_pos h]
  rfl

theorem lowerChar_not_plain {c : Char} (h : 128 ≤ c.toNat) : ¬Plain (lowerChar c) := by
  unfold lowerChar
  rw [if_neg (Nat.not_lt.2 h)]
  split
  · rename_i first last stride distance hfound
    have hcovers := List.find?_some hfound
    obtain ⟨-, hpositive, hvalid, hbig⟩ := lowerTable_rows _ (List.mem_of_find?_eq_some hfound)
    simp only [covers, Bool.and_eq_true, decide_eq_true_eq] at hcovers
    obtain ⟨⟨hfirst, hlast⟩, -⟩ := hcovers
    dsimp only at hpositive hvalid hbig
    have hchar : (Int.toNat (c.toNat + distance)).isValidChar := by
      unfold Nat.isValidChar
      omega
    rintro ⟨hascii, hk⟩
    rw [toNat_ofNat hchar] at hascii
    have hkelvin : Int.toNat (c.toNat + distance) = 0x6B := by omega
    exact hk (by rw [hkelvin])
  · exact fun hplain => absurd hplain.1 (Nat.not_lt.2 h)

section Words
variable {before after : List Char} {c : Char}

theorem lowerAt_of_ascii (h : c.toNat < 128) : lowerAt before c after = [c.toLower] := by
  have hsigma : c ≠ 'Σ' := by
    rintro rfl
    revert h
    decide
  have hdotted : c ≠ 'İ' := by
    rintro rfl
    revert h
    decide
  unfold lowerAt lowerChar
  rw [if_neg hsigma, if_neg hdotted, if_pos h]

theorem ascii_of_plain_lowerAt (h : ∀ d ∈ lowerAt before c after, Plain d) : c.toNat < 128 := by
  refine Nat.lt_of_not_le fun hbig => ?_
  have hsmall : ¬Plain (lowerChar c) := lowerChar_not_plain hbig
  unfold lowerAt at h
  split at h
  · have hsigma : ¬Plain (if endsWord before after then 'ς' else 'σ') := by
      split <;> decide
    exact hsigma (h _ (List.mem_singleton.2 rfl))
  · split at h
    · have hdot : ¬Plain (Char.ofNat 0x307) := by decide
      exact hdot (h _ (List.mem_cons_of_mem _ (List.mem_singleton.2 rfl)))
    · exact hsmall (h _ (List.mem_singleton.2 rfl))

/-! ## Words -/

theorem lowercaseAfter_of_ascii {cs : List Char} (h : ∀ c ∈ cs, c.toNat < 128)
    (before : List Char) : lowercaseAfter before cs = cs.map Char.toLower := by
  induction cs generalizing before with
  | nil => rfl
  | cons c after ih =>
    have hrest : ∀ d ∈ after, d.toNat < 128 := fun d hd => h d (List.mem_cons_of_mem c hd)
    rw [lowercaseAfter, lowerAt_of_ascii (h c List.mem_cons_self), ih hrest, List.map_cons]
    rfl

theorem ascii_of_plain_lowercaseAfter {cs before : List Char}
    (h : ∀ d ∈ lowercaseAfter before cs, Plain d) : ∀ c ∈ cs, c.toNat < 128 := by
  induction cs generalizing before with
  | nil => nofun
  | cons c after ih =>
    rw [lowercaseAfter] at h
    have hfirst : c.toNat < 128 :=
      ascii_of_plain_lowerAt fun d hd => h d (List.mem_append_left _ hd)
    have hrest : ∀ c ∈ after, c.toNat < 128 := ih fun d hd => h d (List.mem_append_right _ hd)
    exact List.forall_mem_cons.2 ⟨hfirst, hrest⟩

/-- Small letters and ASCII small letters are two ways to the same plain words. -/
theorem lowercase_eq_iff {word : List Char} (hword : ∀ c ∈ word, Plain c) (cs : List Char) :
    lowercase cs = word ↔ cs.map Char.toLower = word := by
  constructor
  · rintro rfl
    exact (lowercaseAfter_of_ascii (ascii_of_plain_lowercaseAfter hword) []).symm
  · rintro rfl
    refine lowercaseAfter_of_ascii (fun c hc => ?_) []
    refine Nat.lt_of_not_le fun hbig => ?_
    have hplain : Plain c.toLower := hword _ (List.mem_map_of_mem hc)
    rw [toLower_of_not_ascii hbig] at hplain
    exact absurd hplain.1 (Nat.not_lt.2 hbig)

end Words
end Text

/-! ## Built-in functions -/

theorem Builtin.name_plain (builtin : Builtin) :
    ∀ c ∈ builtin.name.toList.map Char.toLower, Text.Plain c := by
  have hall :
      (builtin.name.toList.map Char.toLower).all (fun c => decide (Text.Plain c)) = true := by
    cases builtin <;> decide
  exact fun c hc => of_decide_eq_true (List.all_eq_true.1 hall c hc)

theorem Builtin.sameAsciiWord_congr (builtin : Builtin) {a b : String} (h : SameName a b) :
    Text.sameAsciiWord builtin.name a = Text.sameAsciiWord builtin.name b := by
  have hkey : Text.lowercase a.toList = Text.lowercase b.toList :=
    String.ofList_injective h
  have hiff := Text.lowercase_eq_iff builtin.name_plain
  have hsame : a.toList.map Char.toLower = builtin.name.toList.map Char.toLower ↔
      b.toList.map Char.toLower = builtin.name.toList.map Char.toLower := by
    rw [← hiff a.toList, ← hiff b.toList, hkey]
  unfold Text.sameAsciiWord
  rw [Bool.eq_iff_iff, beq_iff_eq, beq_iff_eq, eq_comm, hsame, eq_comm]

/-- A built-in function is found under all spellings of a name or under none. -/
theorem Builtin.find?_congr {a b : String} (h : SameName a b) : find? a = find? b := by
  unfold find?
  simp only [fun builtin : Builtin => builtin.sameAsciiWord_congr h]

end Pseudocode
