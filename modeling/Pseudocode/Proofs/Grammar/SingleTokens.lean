import Pseudocode.Proofs.Grammar.Derivation
import Pseudocode.Proofs.Value.Typing

/-! # Single tokens in both directions

What the small parsers do on a row of tokens whose front is known, and what was at the front of the
row if they succeed. -/

namespace Pseudocode.Parser
set_option autoImplicit false
variable {α β : Type} {ls rest : List Lexeme} {token : Token} {span : Span}

theorem bind_ok {p : Parser α} {f : α → Parser β} {a : α} (h : p ls = .ok (a, rest)) :
    (p >>= f) ls = f a rest := by
  change (p ls >>= fun x => f x.1 x.2) = _
  rw [h]
  rfl

theorem peek_bind (f : Option Lexeme → Parser β) : (peek? >>= f) ls = f ls.head? ls := rfl

theorem next_bind (f : Option Lexeme → Parser β) : (next? >>= f) ls = f ls.head? ls.tail := rfl

theorem get_bind (f : List Lexeme → Parser β) : (get >>= f) ls = f ls ls := rfl

theorem accept_pos : accept token (⟨token, span⟩ :: rest) = .ok (true, rest) := by
  unfold accept
  rw [peek_bind, if_pos (show (⟨token, span⟩ :: rest).head?.map Lexeme.token = some token from rfl)]
  rfl

theorem accept_neg (h : nextToken? ls ≠ some token) : accept token ls = .ok (false, ls) := by
  unfold accept
  rw [peek_bind, if_neg (show ls.head?.map Lexeme.token ≠ some token from h)]
  rfl

theorem expect_ok : expect token (⟨token, span⟩ :: rest) = .ok ((), rest) := by
  unfold expect
  rw [next_bind, if_pos (show (⟨token, span⟩ :: rest).head?.map Lexeme.token = some token from rfl)]
  rfl

/-! ## Looking back -/

theorem exists_of_bind_ok {p : Parser α} {f : α → Parser β} {b : β}
    (h : (p >>= f) ls = .ok (b, rest)) :
    ∃ a middle, p ls = .ok (a, middle) ∧ f a middle = .ok (b, rest) := by
  obtain ⟨⟨a, middle⟩, ha, hb⟩ := exists_of_bind_eq_ok h
  exact ⟨a, middle, ha, hb⟩

theorem eq_cons_of_nextToken? (h : nextToken? ls = some token) :
    ∃ span rest, ls = ⟨token, span⟩ :: rest := by
  obtain ⟨⟨_, span⟩, hhead, rfl⟩ := Option.map_eq_some_iff.1 h
  obtain ⟨rest, rfl⟩ := List.head?_eq_some_iff.1 hhead
  exact ⟨span, rest, rfl⟩

theorem eq_cons_of_expect {u : Unit} (h : expect token ls = .ok (u, rest)) :
    ∃ span, ls = ⟨token, span⟩ :: rest := by
  rw [expect, next_bind] at h
  cases ls with
  | nil => cases h
  | cons lexeme ls =>
    obtain ⟨found, span⟩ := lexeme
    by_cases hfound : found = token
    · subst hfound
      rw [if_pos (show (⟨found, span⟩ :: ls).head?.map Lexeme.token = some found from rfl)] at h
      cases h
      exact ⟨span, rfl⟩
    · rw [if_neg (by simpa using hfound)] at h
      cases h

theorem accept_cases {b : Bool} (h : accept token ls = .ok (b, rest)) :
    (b = true ∧ ∃ span, ls = ⟨token, span⟩ :: rest) ∨
      (b = false ∧ ls = rest ∧ nextToken? ls ≠ some token) := by
  by_cases hnext : nextToken? ls = some token
  · obtain ⟨span, ls, rfl⟩ := eq_cons_of_nextToken? hnext
    rw [accept_pos] at h
    cases h
    exact .inl ⟨rfl, span, rfl⟩
  · rw [accept_neg hnext] at h
    cases h
    exact .inr ⟨rfl, rfl, hnext⟩

end Pseudocode.Parser
