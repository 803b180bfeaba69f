import Mathlib.Data.List.Lex

/-! # The order of bytes and the order of code points

A text in UTF-8 is a row of bytes, from one to four for each character. Characters with greater code
points have greater bytes at the first place where they differ, so that texts are in the same order
by their bytes and by their code points. -/

namespace Pseudocode.Text
set_option autoImplicit false

/-- The code points of a text. -/
def codes (s : String) : List Nat := s.toList.map Char.toNat

/-- The bytes of a text in UTF-8, as numbers. -/
def bytes (s : String) : List Nat := s.toUTF8.data.toList.map UInt8.toNat

/-- The bytes of a character in UTF-8, by its code point. -/
def units (n : Nat) : List Nat :=
  if n < 0x80 then [n]
  else if n < 0x800 then [0xC0 + n / 64, 0x80 + n % 64]
  else if n < 0x10000 then [0xE0 + n / 4096, 0x80 + n / 64 % 64, 0x80 + n % 64]
  else [0xF0 + n / 262144, 0x80 + n / 4096 % 64, 0x80 + n / 64 % 64, 0x80 + n % 64]

theorem toNat_lt (c : Char) : c.toNat < 0x110000 := by
  have h := c.valid
  simp only [UInt32.isValidChar, Nat.isValidChar] at h
  have hval : c.val.toNat = c.toNat := rfl
  omega

theorem utf8EncodeChar_toNat (c : Char) :
    (String.utf8EncodeChar c).map UInt8.toNat = units c.toNat := by
  have hlt := toNat_lt c
  have hval : c.val.toNat = c.toNat := rfl
  simp only [String.utf8EncodeChar, units, hval]
  generalize c.toNat = n at hlt ⊢
  split_ifs <;>
    simp only [List.map_cons, List.map_nil, UInt8.toNat_ofNat', List.cons.injEq, and_true] <;> omega

/-- A greater code point has a greater byte at the first place where its bytes differ. -/
theorem units_lt {n m : Nat} (h : n < m) (hm : m < 0x110000) (ns ms : List Nat) :
    units n ++ ns < units m ++ ms := by
  unfold units
  split_ifs <;> simp only [List.cons_append, List.nil_append, List.cons_lt_cons_iff] <;> omega

theorem bytes_eq (s : String) : bytes s = (codes s).flatMap units := by
  have hutf8 : s.toUTF8.data.toList = s.toList.flatMap String.utf8EncodeChar := by
    rw [String.toUTF8, ← String.utf8Encode_toList, List.utf8Encode]
    simp
  simp only [bytes, codes, hutf8, List.map_flatMap, List.flatMap_map, utf8EncodeChar_toNat]

theorem units_ne_nil (n : Nat) : units n ≠ [] := by
  unfold units
  split_ifs <;> simp

/-- The order of code points is kept by the bytes. -/
theorem flatMap_units_lt {ns ms : List Nat} (h : ns < ms) (hms : ∀ m ∈ ms, m < 0x110000) :
    ns.flatMap units < ms.flatMap units := by
  have hlex : List.Lex (· < ·) ns ms := h
  -- nothing that follows matters once two code points differ, as no bytes of one start the other's
  induction hlex with
  | nil =>
    rw [List.flatMap_nil, List.flatMap_cons]
    obtain ⟨u, us, hunits⟩ := List.exists_cons_of_ne_nil (units_ne_nil _)
    rw [hunits]
    exact List.nil_lt_cons _ _
  | rel hlt =>
    rw [List.flatMap_cons, List.flatMap_cons]
    exact units_lt hlt (hms _ (by simp)) _ _
  | cons _ ih =>
    rw [List.flatMap_cons, List.flatMap_cons]
    exact List.append_left_lt (ih ‹_› fun m hm => hms m (by simp [hm]))

theorem bytes_lt {s t : String} (h : codes s < codes t) : bytes s < bytes t := by
  rw [bytes_eq, bytes_eq]
  refine flatMap_units_lt h fun m hm => ?_
  obtain ⟨c, -, rfl⟩ := List.mem_map.1 hm
  exact toNat_lt c

/-- Two texts are in the same order by their bytes and by their code points. -/
theorem bytes_lt_iff {s t : String} : bytes s < bytes t ↔ codes s < codes t := by
  constructor
  · intro h
    rcases lt_trichotomy (codes s) (codes t) with hlt | heq | hgt
    · exact hlt
    · rw [bytes_eq, bytes_eq, heq] at h
      exact absurd h (lt_irrefl _)
    · exact absurd h (bytes_lt hgt).not_gt
  · exact bytes_lt

theorem codes_eq_of_bytes_eq {s t : String} (h : bytes s = bytes t) : codes s = codes t := by
  rcases lt_trichotomy (codes s) (codes t) with hlt | heq | hgt
  · exact absurd h (bytes_lt hlt).ne
  · exact heq
  · exact absurd h (bytes_lt hgt).ne'

end Pseudocode.Text
