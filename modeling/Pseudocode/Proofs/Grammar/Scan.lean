import Pseudocode.Grammar.Layout
import Pseudocode.Proofs.Value.Typing

/-! # Parsing a row of tokens that passed the check

The check of the nesting reads the tokens from left to right and knows nothing of the grammar; the
parsers follow the grammar and know nothing of the check. A `Scan` is a place in a row of tokens as
the check sees it, and `Leads` follows a parser from such a place to the next one, so that what the
check has counted can be compared with what the parser has built:

* `Leads.bind` and the lemmas after it: the logic, and the parsers of single tokens.
* `Depth.Extends`: what is open stays open, on the same line, with some more operators.
* `leads_itemsToClose`, `leads_closedList`, `leads_openList`: lists of items. -/

namespace Pseudocode
set_option autoImplicit false

/-! ## Places -/

/-- A place in a row of tokens that passed the check: what is open there, which is within the
limits, and the tokens that are left. -/
structure Scan where
  depth : Depth
  rest : List Lexeme
  nesting : depth.total ≤ maxNesting
  operators : depth.operators ≤ maxLineOperators
  passes : depth.check rest = .ok ()

theorem Depth.check_cons {depth : Depth} {lexeme : Lexeme} {rest : List Lexeme}
    (h : depth.check (lexeme :: rest) = .ok ()) :
    (depth.step lexeme.token).total ≤ maxNesting ∧
      (depth.step lexeme.token).operators ≤ maxLineOperators ∧
      (depth.step lexeme.token).check rest = .ok () := by
  rw [Depth.check] at h
  split at h
  · cases h
  · split at h
    · cases h
    · exact ⟨by omega, by omega, h⟩

namespace Scan

/-- The place after the next token. -/
def next (s : Scan) {lexeme : Lexeme} {rest : List Lexeme} (h : s.rest = lexeme :: rest) :
    Scan where
  depth := s.depth.step lexeme.token
  rest := rest
  nesting := (Depth.check_cons (h ▸ s.passes)).1
  operators := (Depth.check_cons (h ▸ s.passes)).2.1
  passes := (Depth.check_cons (h ▸ s.passes)).2.2

theorem blocks_le (s : Scan) : s.depth.blocks + s.depth.parens ≤ maxNesting := by
  have hnesting := s.nesting
  unfold Depth.total at hnesting
  omega

end Scan

/-! ## Following a parser -/

namespace Parser
variable {α β : Type}

/-- If the parser succeeds at the given place, it ends at one of which the property holds. -/
def Leads (p : Parser α) (s : Scan) (post : α → Scan → Prop) : Prop :=
  ∀ a rest, p s.rest = .ok (a, rest) → ∃ s' : Scan, s'.rest = rest ∧ post a s'

theorem Leads.bind {p : Parser α} {f : α → Parser β} {s : Scan} {post : α → Scan → Prop}
    {post' : β → Scan → Prop} (hp : Leads p s post)
    (hf : ∀ a s', post a s' → Leads (f a) s' post') : Leads (p >>= f) s post' := by
  intro b rest h
  obtain ⟨⟨a, middle⟩, ha, hb⟩ := exists_of_bind_eq_ok h
  obtain ⟨s', rfl, ha'⟩ := hp a middle ha
  exact hf a s' ha' b rest hb

theorem Leads.mono {p : Parser α} {s : Scan} {post post' : α → Scan → Prop} (hp : Leads p s post)
    (h : ∀ a s', post a s' → post' a s') : Leads p s post' := by
  intro a rest ha
  obtain ⟨s', hs', hpost⟩ := hp a rest ha
  exact ⟨s', hs', h a s' hpost⟩

theorem leads_pure {a : α} {s : Scan} {post : α → Scan → Prop} (h : post a s) :
    Leads (pure a) s post := by
  intro b rest hb
  cases hb
  exact ⟨s, rfl, h⟩

theorem Leads.map {p : Parser α} {f : α → β} {s : Scan} {post : α → Scan → Prop}
    {post' : β → Scan → Prop} (hp : Leads p s post) (h : ∀ a s', post a s' → post' (f a) s') :
    Leads (f <$> p) s post' := by
  rw [map_eq_pure_bind]
  exact hp.bind fun a s' ha => leads_pure (h a s' ha)

theorem leads_throw {e : SyntaxError} {s : Scan} {post : α → Scan → Prop} :
    Leads (throw e) s post := by
  intro a rest h
  cases h

theorem leads_unexpected {expected : Expected} {found : Option Lexeme} {s : Scan}
    {post : α → Scan → Prop} : Leads (unexpected expected found) s post := by
  intro a rest h
  cases found <;> cases h

/-! A parser that takes nothing leaves the place as it is. -/

section Look
variable {s : Scan} {post : β → Scan → Prop}

theorem leads_get {f : List Lexeme → Parser β} (h : Leads (f s.rest) s post) :
    Leads (get >>= f) s post := h

theorem leads_peek {f : Option Lexeme → Parser β}
    (h : ∀ found, found = s.rest.head? → Leads (f found) s post) : Leads (peek? >>= f) s post :=
  h _ rfl

theorem leads_nextLine {f : Nat → Parser β} (h : ∀ line, Leads (f line) s post) :
    Leads (nextLine >>= f) s post :=
  h _

end Look

/-! ## Single tokens -/

theorem leads_next (s : Scan) :
    Leads next? s fun found s' => found = s.rest.head? ∧
      ∀ lexeme, found = some lexeme → s'.depth = s.depth.step lexeme.token := by
  intro found rest h
  cases h
  cases hs : s.rest with
  | nil => exact ⟨s, hs, rfl, fun lexeme hnone => by cases hnone⟩
  | cons lexeme tail =>
    refine ⟨s.next hs, rfl, rfl, fun other hsome => ?_⟩
    cases hsome
    rfl

/-- After a look at the next token, that token is the one which is taken. -/
theorem leads_next_of_peek {s : Scan} {lexeme : Lexeme} (h : some lexeme = s.rest.head?) :
    Leads next? s fun _ s' => s'.depth = s.depth.step lexeme.token :=
  (leads_next s).mono fun _ _ ⟨hfound, hstep⟩ => hstep lexeme (hfound.trans h.symm)

theorem leads_expectEither (token other : Token) (s : Scan) :
    Leads (expectEither token other) s fun _ s' =>
      s'.depth = s.depth.step token ∨ s'.depth = s.depth.step other := by
  refine (leads_next s).bind fun found s' ⟨_, hstep⟩ => ?_
  split
  · rename_i htoken
    refine leads_pure ?_
    cases found with
    | none => simp at htoken
    | some lexeme =>
      simp only [Option.map_some, Option.some.injEq] at htoken
      rw [hstep lexeme rfl]
      rcases htoken with rfl | rfl
      · exact .inl rfl
      · exact .inr rfl
  · exact leads_unexpected

theorem leads_expect (token : Token) (s : Scan) :
    Leads (expect token) s fun _ s' => s'.depth = s.depth.step token := by
  refine (leads_next s).bind fun found s' ⟨_, hstep⟩ => ?_
  split
  · rename_i htoken
    obtain ⟨lexeme, rfl, rfl⟩ := Option.map_eq_some_iff.1 htoken
    exact leads_pure (hstep lexeme rfl)
  · exact leads_unexpected

theorem leads_accept (token : Token) (s : Scan) :
    Leads (accept token) s fun taken s' =>
      (taken = true → s'.depth = s.depth.step token) ∧ (taken = false → s'.depth = s.depth) := by
  refine leads_peek fun found hfound => ?_
  split
  · rename_i htoken
    obtain ⟨lexeme, rfl, rfl⟩ := Option.map_eq_some_iff.1 htoken
    refine (leads_next_of_peek hfound).bind fun _ _ hstep => leads_pure ⟨fun _ => hstep, ?_⟩
    intro hfalse
    cases hfalse
  · refine leads_pure ⟨fun htrue => ?_, fun _ => rfl⟩
    cases htrue

end Parser

/-! ## What stays open -/

/-- What is open stays so, on the same line, with so many more operators at least. -/
structure Depth.Extends (d : Depth) (count : Nat) (d' : Depth) : Prop where
  blocks : d'.blocks = d.blocks
  parens : d'.parens = d.parens
  header : d'.forHeader = d.forHeader
  operators : d.operators + count ≤ d'.operators

/-- As `Extends`, but one parenthesis is closed. -/
structure Depth.Closes (d : Depth) (count : Nat) (d' : Depth) : Prop where
  blocks : d'.blocks = d.blocks
  parens : d'.parens = d.parens - 1
  header : d'.forHeader = d.forHeader
  operators : d.operators + count ≤ d'.operators

/-- A token that opens and closes nothing and is no operator. -/
def Token.isPlain : Token → Bool
  | .literal _ | .type _ | .ident _ | .punct .comma | .punct .colon | .punct .assign
  | .keyword .de | .keyword .a | .keyword .pas => true
  | _ => false

namespace Depth
variable {d d' d'' : Depth} {n k : Nat}

theorem Extends.refl (d : Depth) : d.Extends 0 d := ⟨rfl, rfl, rfl, Nat.le_refl _⟩

theorem Extends.trans (h : d.Extends n d') (h' : d'.Extends k d'') : d.Extends (n + k) d'' := by
  have hops := h.operators
  have hops' := h'.operators
  exact ⟨h'.blocks.trans h.blocks, h'.parens.trans h.parens, h'.header.trans h.header, by omega⟩

theorem Extends.closes (h : d.Extends n d') (h' : d'.Closes k d'') : d.Closes (n + k) d'' := by
  have hops := h.operators
  have hops' := h'.operators
  exact ⟨h'.blocks.trans h.blocks, by rw [h'.parens, h.parens], h'.header.trans h.header, by omega⟩

theorem extends_plain (d : Depth) {token : Token} (h : token.isPlain = true) :
    d.Extends 0 (d.step token) := by
  unfold Token.isPlain at h
  split at h
  case h_10 => cases h
  all_goals exact ⟨rfl, rfl, rfl, Nat.le_refl _⟩

theorem blocks_separator (d : Depth) {token : Token} (h : token.isSeparator = true) :
    (d.step token).blocks = d.blocks := by
  unfold Token.isSeparator at h
  split at h
  case h_3 => cases h
  all_goals rfl

theorem extends_op (d : Depth) (op : BinOp) : d.Extends 1 (d.step (.op op)) :=
  ⟨rfl, rfl, rfl, Nat.le_refl _⟩

theorem extends_non (d : Depth) : d.Extends 1 (d.step (.keyword .non)) :=
  ⟨rfl, rfl, rfl, Nat.le_refl _⟩

theorem closes_rparen (d : Depth) : d.Closes 0 (d.step (.punct .rparen)) :=
  ⟨rfl, rfl, rfl, Nat.le_refl _⟩

/-- What was opened by a parenthesis and is closed again is as it was before. -/
theorem Closes.of_lparen (h : (d.step (.punct .lparen)).Closes n d') : d.Extends n d' := by
  have hparens : d'.parens = d.parens + 1 - 1 := h.parens
  exact ⟨h.blocks, by omega, h.header, h.operators⟩

end Depth

namespace Parser
variable {α : Type}

theorem leads_skipSeparators (s : Scan) :
    Leads skipSeparators s fun _ s' => s'.depth.blocks = s.depth.blocks := by
  intro _ rest h
  cases h
  induction hs : s.rest generalizing s with
  | nil => exact ⟨s, hs, rfl⟩
  | cons lexeme ls ih =>
    rw [List.dropWhile_cons]
    split
    · rename_i hseparator
      obtain ⟨s', hrest, hblocks⟩ := ih (s.next hs) rfl
      exact ⟨s', hrest, hblocks.trans (s.depth.blocks_separator hseparator)⟩
    · exact ⟨s, hs, rfl⟩

theorem leads_identifier (s : Scan) :
    Leads identifier s fun _ s' => s.depth.Extends 0 s'.depth := by
  refine (leads_next s).bind fun found s' ⟨_, hstep⟩ => ?_
  split
  · refine leads_pure ?_
    rw [hstep _ rfl]
    exact s.depth.extends_plain rfl
  · exact leads_unexpected

/-! ## Lists

An item is followed through its list by the number of operators it has and by a property that may
depend on how much was open before it. -/

/-- The weights of all items together. -/
def totalWeight (weight : α → Nat) : List α → Nat
  | [] => 0
  | first :: rest => weight first + totalWeight weight rest

section Lists
variable {item : Parser α} (weight : α → Nat) (good : Nat → α → Prop)
  (hitem : ∀ s, Leads item s fun a s' =>
    s.depth.Extends (weight a) s'.depth ∧ good (s.depth.blocks + s.depth.parens) a)
include hitem

theorem leads_itemsToClose (bound : Nat) (s : Scan) :
    Leads (itemsToClose item bound) s fun as s' =>
      s.depth.Closes (totalWeight weight as) s'.depth ∧
        ∀ a ∈ as, good (s.depth.blocks + s.depth.parens) a := by
  induction bound generalizing s with
  | zero => exact leads_unexpected
  | succ bound ih =>
    refine (hitem s).bind fun first s₁ ⟨hextends, hgood⟩ => ?_
    refine (leads_next s₁).bind fun found s₂ ⟨_, hstep⟩ => ?_
    split
    · have hcomma := s₁.depth.extends_plain (show (Token.punct .comma).isPlain = true from rfl)
      have hstart := hextends.trans (hstep _ rfl ▸ hcomma)
      refine (ih s₂).bind fun rest s₃ ⟨hcloses, hrest⟩ => leads_pure ⟨hstart.closes hcloses, ?_⟩
      intro a ha
      rw [hstart.blocks, hstart.parens] at hrest
      rcases List.mem_cons.1 ha with rfl | ha
      · exact hgood
      · exact hrest a ha
    · have hcloses := hextends.closes (hstep _ rfl ▸ s₁.depth.closes_rparen)
      refine leads_pure ⟨hcloses, ?_⟩
      intro a ha
      obtain rfl := List.mem_singleton.1 ha
      exact hgood
    · exact leads_unexpected
    · exact leads_unexpected

theorem leads_closedList (s : Scan) :
    Leads (closedList item) s fun as s' =>
      s.depth.Closes (totalWeight weight as) s'.depth ∧
        ∀ a ∈ as, good (s.depth.blocks + s.depth.parens) a := by
  refine (leads_accept (.punct .rparen) s).bind fun taken s₁ ⟨htaken, hleft⟩ => ?_
  cases taken with
  | true =>
    refine leads_pure ⟨?_, fun a ha => by cases ha⟩
    rw [htaken rfl]
    exact s.depth.closes_rparen
  | false =>
    refine leads_get ?_
    rw [← hleft rfl]
    exact leads_itemsToClose weight good hitem _ s₁

theorem leads_itemsWithCommas (bound : Nat) (s : Scan) :
    Leads (itemsWithCommas item bound) s fun as s' =>
      s.depth.Extends (totalWeight weight as) s'.depth ∧
        ∀ a ∈ as, good (s.depth.blocks + s.depth.parens) a := by
  have hsingle {s s' : Scan} {a : α} (h : s.depth.Extends (weight a) s'.depth ∧
      good (s.depth.blocks + s.depth.parens) a) :
      s.depth.Extends (totalWeight weight [a]) s'.depth ∧
        ∀ b ∈ [a], good (s.depth.blocks + s.depth.parens) b := by
    refine ⟨h.1.trans (.refl _), fun b hb => ?_⟩
    obtain rfl := List.mem_singleton.1 hb
    exact h.2
  induction bound generalizing s with
  | zero => exact (hitem s).bind fun a s₁ ha => leads_pure (hsingle ha)
  | succ bound ih =>
    refine (hitem s).bind fun first s₁ hfirst => ?_
    refine (leads_accept (.punct .comma) s₁).bind fun taken s₂ ⟨htaken, hleft⟩ => ?_
    cases taken with
    | true =>
      have hcomma := s₁.depth.extends_plain (show (Token.punct .comma).isPlain = true from rfl)
      have hstart := hfirst.1.trans (htaken rfl ▸ hcomma)
      refine (ih s₂).bind fun rest s₃ ⟨hextends, hrest⟩ => leads_pure ⟨hstart.trans hextends, ?_⟩
      intro a ha
      rw [hstart.blocks, hstart.parens] at hrest
      rcases List.mem_cons.1 ha with rfl | ha
      · exact hfirst.2
      · exact hrest a ha
    | false =>
      refine leads_pure (hsingle ?_)
      rw [hleft rfl]
      exact hfirst

theorem leads_openList (s : Scan) :
    Leads (openList item) s fun as s' =>
      s.depth.Extends (totalWeight weight as) s'.depth ∧
        ∀ a ∈ as, good (s.depth.blocks + s.depth.parens) a := by
  refine leads_get ?_
  exact leads_itemsWithCommas weight good hitem _ s

end Lists

/-- Lists of items without operators, such as names. -/
theorem leads_names {item : Parser α}
    (hitem : ∀ s, Leads item s fun _ s' => s.depth.Extends 0 s'.depth) (s : Scan) :
    Leads (openList item) s (fun _ s' => s'.depth.blocks = s.depth.blocks) ∧
      Leads (closedList item) s fun _ s' => s'.depth.blocks = s.depth.blocks := by
  have hplain : ∀ s, Leads item s fun _ s' => s.depth.Extends 0 s'.depth ∧ True :=
    fun s => (hitem s).mono fun _ _ h => ⟨h, trivial⟩
  constructor
  · exact (leads_openList (fun _ => 0) (fun _ _ => True) hplain s).mono fun _ _ h => h.1.blocks
  · exact (leads_closedList (fun _ => 0) (fun _ _ => True) hplain s).mono fun _ _ h => h.1.blocks

end Parser
end Pseudocode
