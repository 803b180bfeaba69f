import Pseudocode.Grammar.Layout
import Pseudocode.Proofs.Grammar.SingleTokens
import Pseudocode.Proofs.Grammar.Rendering

/-! # Parsers that read given tokens

What it means that a parser reads some tokens back: wherever they stand in the source, it takes
exactly them, provided that a suitable token follows, and it succeeds with a suitable result. The
rules follow the parsers step by step, as the tokens are written down.

* `Reads.bind`: one parser after another, each with its part of the tokens.
* `reads_cons`, `reads_peek`, `reads_decline`, `reads_skip` and so on: the parsers of single tokens.
* `reads_closedList`, `reads_openList`: items with commas between them. -/

namespace Pseudocode.Parser
set_option autoImplicit false
variable {α β : Type}

/-- Before a token that may follow, the parser takes exactly the given tokens, and its result is a
good one. -/
def Reads (p : Parser α) (tokens : List Token) (follow : Option Token → Prop) (good : α → Prop) :
    Prop :=
  ∀ ls rest, ls.map Lexeme.token = tokens → follow (nextToken? rest) →
    ∃ a, p (ls ++ rest) = .ok (a, rest) ∧ good a

/-- Nothing is asked of the token that follows. -/
abbrev anyNext : Option Token → Prop := fun _ => True

theorem nextToken?_append (ls rest : List Lexeme) :
    nextToken? (ls ++ rest) = (ls.map Lexeme.token).head?.or (nextToken? rest) := by
  cases ls <;> rfl

/-! ## One after another -/

theorem Reads.bind {p : Parser α} {f : α → Parser β} {first second : List Token}
    {between follow : Option Token → Prop} {middle : α → Prop} {good : β → Prop}
    (hp : Reads p first between middle)
    (hbetween : ∀ next, follow next → between (second.head?.or next))
    (hf : ∀ a, middle a → Reads (f a) second follow good) :
    Reads (p >>= f) (first ++ second) follow good := by
  intro ls rest hls hrest
  obtain ⟨l₁, l₂, rfl, rfl, rfl⟩ := List.map_eq_append_iff.1 hls
  obtain ⟨a, ha, hmiddle⟩ := hp l₁ (l₂ ++ rest) rfl (by
    rw [nextToken?_append]
    exact hbetween _ hrest)
  obtain ⟨b, hb, hgood⟩ := hf a hmiddle l₂ rest rfl hrest
  refine ⟨b, ?_, hgood⟩
  rw [List.append_assoc, bind_ok ha, hb]

/-- The second parser takes nothing. -/
theorem Reads.bind_nil {p : Parser α} {f : α → Parser β} {tokens : List Token}
    {between follow : Option Token → Prop} {middle : α → Prop} {good : β → Prop}
    (hp : Reads p tokens between middle) (hbetween : ∀ next, follow next → between next)
    (hf : ∀ a, middle a → Reads (f a) [] follow good) : Reads (p >>= f) tokens follow good := by
  have hbind := hp.bind hbetween hf
  rwa [List.append_nil] at hbind

theorem reads_pure {a : α} {follow : Option Token → Prop} {good : α → Prop} (h : good a) :
    Reads (pure a) [] follow good := by
  intro ls rest hls _
  obtain rfl := List.map_eq_nil_iff.1 hls
  exact ⟨a, rfl, h⟩

theorem Reads.map {p : Parser α} {f : α → β} {tokens : List Token} {follow : Option Token → Prop}
    {middle : α → Prop} {good : β → Prop} (hp : Reads p tokens follow middle)
    (h : ∀ a, middle a → good (f a)) : Reads (f <$> p) tokens follow good := by
  intro ls rest hls hrest
  obtain ⟨a, ha, hmiddle⟩ := hp ls rest hls hrest
  refine ⟨f a, ?_, h a hmiddle⟩
  rw [map_eq_pure_bind, bind_ok ha]
  rfl

/-! ## Single tokens -/

section Tokens
variable {tokens : List Token} {token : Token} {follow : Option Token → Prop} {good : β → Prop}

/-- A parser of one token. -/
theorem reads_cons {p : Parser α} {f : α → Parser β} (a : Span → α)
    (hp : ∀ span rest, p (⟨token, span⟩ :: rest) = .ok (a span, rest))
    (h : ∀ span, Reads (f (a span)) tokens follow good) :
    Reads (p >>= f) (token :: tokens) follow good := by
  intro ls rest hls hrest
  obtain ⟨⟨_, span⟩, ls, rfl, rfl, rfl⟩ := List.map_eq_cons_iff.1 hls
  rw [List.cons_append, bind_ok (hp span _)]
  exact h span ls rest rfl hrest

theorem reads_next {f : Option Lexeme → Parser β}
    (h : ∀ span, Reads (f (some ⟨token, span⟩)) tokens follow good) :
    Reads (next? >>= f) (token :: tokens) follow good :=
  reads_cons (fun span => some ⟨token, span⟩) (fun _ _ => rfl) h

theorem reads_accept {f : Bool → Parser β} (h : Reads (f true) tokens follow good) :
    Reads (accept token >>= f) (token :: tokens) follow good :=
  reads_cons (fun _ => true) (fun _ _ => accept_pos) fun _ => h

theorem reads_expect {f : Unit → Parser β} (h : Reads (f ()) tokens follow good) :
    Reads (expect token >>= f) (token :: tokens) follow good :=
  reads_cons (fun _ => ()) (fun _ _ => expect_ok) fun _ => h

theorem reads_expectEither {f : Unit → Parser β} {first other : Token}
    (htoken : token ∈ [first, other]) (h : Reads (f ()) tokens follow good) :
    Reads (expectEither first other >>= f) (token :: tokens) follow good := by
  refine reads_cons (fun _ => ()) (fun span rest => ?_) fun _ => h
  rw [expectEither, next_bind, if_pos (by simpa using htoken)]
  rfl

theorem reads_decline {f : Bool → Parser β}
    (hnext : ∀ next, follow next → tokens.head?.or next ≠ some token)
    (h : Reads (f false) tokens follow good) : Reads (accept token >>= f) tokens follow good := by
  intro ls rest hls hrest
  have hdecline : nextToken? (ls ++ rest) ≠ some token := by
    rw [nextToken?_append, hls]
    exact hnext _ hrest
  rw [bind_ok (accept_neg hdecline)]
  exact h ls rest hls hrest

theorem reads_peek {f : Option Lexeme → Parser β}
    (h : ∀ span, Reads (f (some ⟨token, span⟩)) (token :: tokens) follow good) :
    Reads (peek? >>= f) (token :: tokens) follow good := by
  intro ls rest hls hrest
  obtain ⟨⟨_, span⟩, ls, rfl, rfl, rfl⟩ := List.map_eq_cons_iff.1 hls
  exact h span _ rest rfl hrest

/-- Looking at the token that follows. -/
theorem reads_peek_nil {f : Option Lexeme → Parser β}
    (h : ∀ found, follow (found.map Lexeme.token) → Reads (f found) [] follow good) :
    Reads (peek? >>= f) [] follow good := by
  intro ls rest hls hrest
  obtain rfl := List.map_eq_nil_iff.1 hls
  exact h rest.head? hrest [] rest rfl hrest

theorem reads_get {f : List Lexeme → Parser β}
    (h : ∀ ls rest, ls.map Lexeme.token = tokens → follow (nextToken? rest) →
      Reads (f (ls ++ rest)) tokens follow good) : Reads (get >>= f) tokens follow good :=
  fun ls rest hls hrest => h ls rest hls hrest ls rest hls hrest

/-- Looking at how much is left, which is no less than what is to be read. -/
theorem reads_length {f : List Lexeme → Parser β}
    (h : ∀ left, tokens.length ≤ left.length → Reads (f left) tokens follow good) :
    Reads (get >>= f) tokens follow good := by
  refine reads_get fun ls rest hls _ => h _ ?_
  rw [← hls, List.length_map, List.length_append]
  exact Nat.le_add_right _ _

theorem reads_nextLine {f : Nat → Parser β} (h : ∀ line, Reads (f line) tokens follow good) :
    Reads (nextLine >>= f) tokens follow good :=
  fun ls rest hls hrest => h _ ls rest hls hrest

theorem reads_identifier (name : String) : Reads identifier [.ident name] anyNext (· = name) :=
  reads_next fun _ => reads_pure rfl

theorem reads_type (ty : Ty) : Reads type [.type ty] anyNext (· = ty) :=
  reads_next fun _ => reads_pure rfl

theorem reads_declaredName {name : String} (h : isBuiltin name = false) :
    Reads declaredName [.ident name] anyNext (· = name) := by
  refine reads_nextLine fun line => (reads_identifier name).bind (fun _ _ => trivial) ?_
  rintro _ rfl
  rw [if_neg (by rw [h]; exact Bool.false_ne_true)]
  exact reads_pure rfl

/-! ## Separators -/

theorem reads_skip {f : Unit → Parser β}
    (hnext : ∀ next, follow next → (tokens.head?.or next).any Token.isSeparator = false)
    (h : Reads (f ()) tokens follow good) : Reads (skipSeparators >>= f) tokens follow good := by
  intro ls rest hls hrest
  have hstay : (ls ++ rest).dropWhile (·.token.isSeparator) = ls ++ rest := by
    have hhead := hnext _ hrest
    rw [← hls, ← nextToken?_append] at hhead
    cases hall : ls ++ rest with
    | nil => rfl
    | cons lexeme all =>
      rw [hall] at hhead
      exact List.dropWhile_cons_of_neg (by rw [show lexeme.token.isSeparator = false from hhead]; simp)
  have hskip : skipSeparators (ls ++ rest) = .ok ((), ls ++ rest) := by
    rw [skipSeparators, hstay]
  rw [bind_ok hskip]
  exact h ls rest hls hrest

theorem reads_skip_newline {f : Unit → Parser β}
    (h : Reads (skipSeparators >>= f) tokens follow good) :
    Reads (skipSeparators >>= f) (.newline :: tokens) follow good := by
  intro ls rest hls hrest
  obtain ⟨⟨_, span⟩, ls, rfl, rfl, rfl⟩ := List.map_eq_cons_iff.1 hls
  exact h ls rest rfl hrest

end Tokens

/-! ## Lists -/

theorem commas_cons_cons (first second : List Token) (rows : List (List Token)) :
    commas (first :: second :: rows) = first ++ .punct .comma :: commas (second :: rows) := by
  rw [commas, List.intercalate_cons_cons, List.append_assoc]
  rfl

theorem commas_singleton (row : List Token) : commas [row] = row := List.intercalate_singleton

theorem length_le_commas (rows : List (List Token)) : rows.length ≤ (commas rows).length + 1 := by
  match rows with
  | [] => exact Nat.zero_le _
  | [row] => exact Nat.le_add_left _ _
  | first :: second :: rows =>
    have ih := length_le_commas (second :: rows)
    rw [commas_cons_cons, List.length_append]
    simp only [List.length_cons] at ih ⊢
    omega

section Lists
variable {item : Parser α} {write : α → List Token} {erase : α → β}
  {between follow : Option Token → Prop}

theorem reads_itemsToClose (hcomma : between (some (.punct .comma)))
    (hclose : between (some (.punct .rparen))) {xs : List α} (bound : Nat) (hxs : xs ≠ [])
    (hbound : xs.length ≤ bound)
    (hitem : ∀ x ∈ xs, Reads item (write x) between fun a => erase a = erase x) :
    Reads (itemsToClose item bound) (commas (xs.map write) ++ [.punct .rparen]) follow
      fun as => as.map erase = xs.map erase := by
  induction xs generalizing bound with
  | nil => exact absurd rfl hxs
  | cons x xs ih =>
    obtain ⟨bound, rfl⟩ := Nat.exists_eq_add_one_of_ne_zero (Nat.ne_zero_of_lt hbound)
    have hx := hitem x List.mem_cons_self
    cases xs with
    | nil =>
      rw [List.map_cons, List.map_nil, commas_singleton]
      refine hx.bind (fun _ _ => hclose) fun a ha => reads_next fun span => reads_pure ?_
      simp only [List.map_cons, List.map_nil, ha]
    | cons y ys =>
      rw [List.map_cons, List.map_cons, commas_cons_cons, List.append_assoc, List.cons_append]
      refine hx.bind (fun _ _ => hcomma) fun a ha => reads_next fun span => ?_
      have hrest := ih bound (List.cons_ne_nil y ys) (Nat.le_of_succ_le_succ hbound)
        fun z hz => hitem z (List.mem_cons_of_mem x hz)
      refine hrest.bind_nil (fun _ h => h) fun as has => reads_pure ?_
      rw [List.map_cons, ha, has]
      rfl

/-- A list in parentheses, after the opening one. -/
theorem reads_closedList {xs : List α} (hcomma : between (some (.punct .comma)))
    (hclose : between (some (.punct .rparen)))
    (hstart : ∀ x ∈ xs, ∃ first rest, write x = first :: rest ∧ first ≠ .punct .rparen)
    (hitem : ∀ x ∈ xs, Reads item (write x) between fun a => erase a = erase x) :
    Reads (closedList item) (commas (xs.map write) ++ [.punct .rparen]) follow
      fun as => as.map erase = xs.map erase := by
  cases xs with
  | nil => exact reads_accept (reads_pure rfl)
  | cons x xs =>
    have hhead : ∀ next, (commas ((x :: xs).map write) ++ [Token.punct .rparen]).head?.or next ≠
        some (.punct .rparen) := by
      intro next hnext
      obtain ⟨first, rest, hx, hfirst⟩ := hstart x List.mem_cons_self
      cases xs <;> simp [commas_cons_cons, commas_singleton, hx] at hnext <;> exact hfirst hnext
    refine reads_decline (fun next _ => hhead next) ?_
    refine reads_length fun left hleft => ?_
    refine reads_itemsToClose hcomma hclose _ (List.cons_ne_nil x xs) ?_ hitem
    have hlength := length_le_commas ((x :: xs).map write)
    rw [List.length_map] at hlength
    rw [List.length_append, List.length_singleton] at hleft
    omega

theorem reads_itemsWithCommas {xs : List α} (bound : Nat) (hxs : xs ≠ [])
    (hbound : xs.length ≤ bound + 1) (hcomma : between (some (.punct .comma)))
    (hitem : ∀ x ∈ xs, Reads item (write x) between fun a => erase a = erase x)
    (hfollow : ∀ next, follow next → between next ∧ next ≠ some (.punct .comma)) :
    Reads (itemsWithCommas item bound) (commas (xs.map write)) follow
      fun as => as.map erase = xs.map erase := by
  induction xs generalizing bound with
  | nil => exact absurd rfl hxs
  | cons x xs ih =>
    have hx := hitem x List.mem_cons_self
    cases xs with
    | nil =>
      rw [List.map_cons, List.map_nil, commas_singleton, ← List.append_nil (write x)]
      cases bound with
      | zero =>
        refine hx.bind (fun next h => (hfollow next h).1) fun a ha => reads_pure ?_
        simp only [List.map_cons, List.map_nil, ha]
      | succ bound =>
        refine hx.bind (fun next h => (hfollow next h).1) fun a ha => ?_
        refine reads_decline (fun next h => (hfollow next h).2) (reads_pure ?_)
        simp only [List.map_cons, List.map_nil, ha]
    | cons y ys =>
      simp only [List.length_cons] at hbound
      obtain ⟨bound, rfl⟩ := Nat.exists_eq_add_one_of_ne_zero (show bound ≠ 0 by omega)
      rw [List.map_cons, List.map_cons, commas_cons_cons]
      refine hx.bind (fun _ _ => hcomma) fun a ha => reads_accept ?_
      have hrest := ih bound (List.cons_ne_nil y ys) (Nat.le_of_succ_le_succ hbound)
        fun z hz => hitem z (List.mem_cons_of_mem x hz)
      refine hrest.bind_nil (fun _ h => h) fun as has => reads_pure ?_
      rw [List.map_cons, ha, has]
      rfl

/-- A list without parentheses. -/
theorem reads_openList {xs : List α} (hxs : xs ≠ []) (hcomma : between (some (.punct .comma)))
    (hitem : ∀ x ∈ xs, Reads item (write x) between fun a => erase a = erase x)
    (hfollow : ∀ next, follow next → between next ∧ next ≠ some (.punct .comma)) :
    Reads (openList item) (commas (xs.map write)) follow fun as => as.map erase = xs.map erase := by
  refine reads_length fun left hleft => ?_
  refine reads_itemsWithCommas _ hxs ?_ hcomma hitem hfollow
  have hlength := length_le_commas (xs.map write)
  rw [List.length_map] at hlength
  omega

end Lists
end Pseudocode.Parser
