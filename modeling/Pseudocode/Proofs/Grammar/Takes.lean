import Mathlib.Data.List.TakeWhile
import Pseudocode.Grammar.Layout
import Pseudocode.Proofs.Grammar.ExpressionGrammar

/-! # The tokens that parsers take

A parser that succeeds takes tokens from the front of a row and leaves the others. `Takes` follows a
parser and says which tokens those are:

* `Takes.bind` and the theorems after it: sequences, and the parsers of single tokens.
* `Flat`: tokens that stand on one line, outside of the words that open and close blocks, and whose
  parentheses are balanced.
* `takes_expression`, `takes_closedList`, `takes_openList`: expressions and lists take flat tokens. -/

namespace Pseudocode
set_option autoImplicit false

namespace Parser
variable {α β : Type} {ls : List Lexeme}

/-- If the parser succeeds on the row, the property holds of its result and the tokens it took. -/
def Takes (p : Parser α) (ls : List Lexeme) (post : α → List Lexeme → Prop) : Prop :=
  ∀ a rest, p ls = .ok (a, rest) → ∃ taken, ls = taken ++ rest ∧ post a taken

/-! ## Sequences -/

theorem Takes.bind {p : Parser α} {f : α → Parser β} {post : α → List Lexeme → Prop}
    {post' : β → List Lexeme → Prop} (hp : Takes p ls post)
    (hf : ∀ a taken rest, post a taken →
      Takes (f a) rest fun b taken' => post' b (taken ++ taken')) : Takes (p >>= f) ls post' := by
  intro b rest h
  obtain ⟨a, middle, ha, hb⟩ := exists_of_bind_ok h
  obtain ⟨taken, rfl, hpost⟩ := hp a middle ha
  obtain ⟨taken', rfl, hpost'⟩ := hf a taken middle hpost b rest hb
  exact ⟨taken ++ taken', (List.append_assoc ..).symm, hpost'⟩

theorem Takes.mono {p : Parser α} {post post' : α → List Lexeme → Prop} (hp : Takes p ls post)
    (h : ∀ a taken, post a taken → post' a taken) : Takes p ls post' := by
  intro a rest ha
  obtain ⟨taken, htaken, hpost⟩ := hp a rest ha
  exact ⟨taken, htaken, h a taken hpost⟩

theorem takes_pure {a : α} {post : α → List Lexeme → Prop} (h : post a []) :
    Takes (pure a) ls post := by
  intro b rest hb
  cases hb
  exact ⟨[], rfl, h⟩

theorem Takes.map {p : Parser α} {f : α → β} {post : α → List Lexeme → Prop}
    {post' : β → List Lexeme → Prop} (hp : Takes p ls post)
    (h : ∀ a taken, post a taken → post' (f a) taken) : Takes (f <$> p) ls post' := by
  rw [map_eq_pure_bind]
  refine hp.bind fun a taken rest ha => takes_pure ?_
  rw [List.append_nil]
  exact h a taken ha

theorem takes_throw {e : SyntaxError} {post : α → List Lexeme → Prop} :
    Takes (throw e) ls post := by
  intro a rest h
  cases h

theorem takes_unexpected {expected : Expected} {found : Option Lexeme}
    {post : α → List Lexeme → Prop} : Takes (unexpected expected found) ls post := by
  intro a rest h
  cases found <;> cases h

theorem takes_ite {c : Prop} [Decidable c] {first other : Parser α}
    {post : α → List Lexeme → Prop} (hfirst : c → Takes first ls post)
    (hother : ¬c → Takes other ls post) : Takes (if c then first else other) ls post := by
  split
  · exact hfirst ‹_›
  · exact hother ‹_›

section Look
variable {post : β → List Lexeme → Prop}

theorem takes_get {f : List Lexeme → Parser β} (h : Takes (f ls) ls post) :
    Takes (get >>= f) ls post := h

theorem takes_peek {f : Option Lexeme → Parser β} (h : Takes (f ls.head?) ls post) :
    Takes (peek? >>= f) ls post := h

theorem takes_nextLine {f : Nat → Parser β} (h : ∀ line, Takes (f line) ls post) :
    Takes (nextLine >>= f) ls post :=
  h _

end Look

/-! ## Single tokens -/

theorem takes_next : Takes next? ls fun found taken => found = ls.head? ∧ taken = found.toList := by
  intro found rest h
  cases h
  cases ls with
  | nil => exact ⟨[], rfl, rfl, rfl⟩
  | cons lexeme rest => exact ⟨[lexeme], rfl, rfl, rfl⟩

theorem takes_expect (token : Token) :
    Takes (expect token) ls fun _ taken => ∃ span, taken = [⟨token, span⟩] := by
  intro _ rest h
  obtain ⟨span, rfl⟩ := eq_cons_of_expect h
  exact ⟨[⟨token, span⟩], rfl, span, rfl⟩

theorem takes_expectEither (token other : Token) :
    Takes (expectEither token other) ls fun _ taken =>
      ∃ lexeme, taken = [lexeme] ∧ (lexeme.token = token ∨ lexeme.token = other) := by
  refine takes_next.bind fun found taken rest ⟨_, htaken⟩ => takes_ite (fun htoken => ?_) fun _ =>
    takes_unexpected
  cases found with
  | none => simp at htoken
  | some lexeme =>
    simp only [Option.map_some, Option.some.injEq] at htoken
    exact takes_pure ⟨lexeme, by rw [htaken]; rfl, htoken⟩

theorem takes_accept (token : Token) :
    Takes (accept token) ls fun found taken =>
      found = true ∧ (∃ span, taken = [⟨token, span⟩]) ∨ found = false ∧ taken = [] := by
  intro found rest h
  rcases accept_cases h with ⟨hfound, span, rfl⟩ | ⟨hfound, rfl, -⟩
  · exact ⟨[⟨token, span⟩], rfl, .inl ⟨hfound, span, rfl⟩⟩
  · exact ⟨[], rfl, .inr ⟨hfound, rfl⟩⟩

/-- The two ways to go on after a token that may be there. -/
theorem takes_acceptThen {token : Token} {first other : Parser β} {post : β → List Lexeme → Prop}
    (hfirst : ∀ span rest, Takes first rest fun b taken => post b (⟨token, span⟩ :: taken))
    (hother : Takes other ls post) :
    Takes (do if ← accept token then first else other) ls post := by
  intro b rest h
  obtain ⟨found, middle, hfound, hb⟩ := exists_of_bind_ok h
  obtain ⟨rfl, span, rfl⟩ | ⟨rfl, rfl, -⟩ := accept_cases hfound
  · obtain ⟨taken, rfl, hpost⟩ := hfirst span middle b rest hb
    exact ⟨⟨token, span⟩ :: taken, rfl, hpost⟩
  · exact hother b rest hb

theorem takes_skipSeparators :
    Takes skipSeparators ls fun _ taken => ∀ lexeme ∈ taken, lexeme.token.isSeparator = true := by
  intro _ rest h
  cases h
  refine ⟨ls.takeWhile (·.token.isSeparator), List.takeWhile_append_dropWhile.symm, ?_⟩
  intro lexeme hlexeme
  exact List.mem_takeWhile_imp (p := fun lexeme : Lexeme => lexeme.token.isSeparator) hlexeme

end Parser

/-! ## Flat tokens -/

/-- A token within a line that neither opens nor closes anything. -/
def Token.isInline : Token → Bool
  | .newline | .punct .semicolon | .punct .lparen | .punct .rparen
  | .keyword .si | .keyword .finSi | .keyword .pour | .keyword .faire | .keyword .finPour
  | .keyword .tantQue | .keyword .finTantQue | .keyword .repeter | .keyword .jusqua => false
  | _ => true

/-- Tokens within a line that open and close nothing but parentheses, which are balanced. -/
inductive Flat : List Lexeme → Prop where
  | nil : Flat []
  | token {lexeme : Lexeme} : lexeme.token.isInline = true → Flat [lexeme]
  | group {ls : List Lexeme} (opening closing : Span) :
      Flat ls → Flat (⟨.punct .lparen, opening⟩ :: (ls ++ [⟨.punct .rparen, closing⟩]))
  | append {ls rs : List Lexeme} : Flat ls → Flat rs → Flat (ls ++ rs)

theorem Flat.cons {lexeme : Lexeme} {ls : List Lexeme} (h : lexeme.token.isInline = true)
    (hls : Flat ls) : Flat (lexeme :: ls) :=
  (Flat.token h).append hls

mutual

theorem Derives.flat {level : Nat} {ls : List Lexeme} {e : Expr} : Derives level ls e → Flat ls
  | .prefixed h => h.flat
  | .operand h => h.flat
  | .binary hleft _ hright => hleft.flat.append (.cons rfl hright.flat)

theorem DerivesPrefixed.flat {ls : List Lexeme} {e : Expr} : DerivesPrefixed ls e → Flat ls
  | .negate h => .cons rfl h.flat
  | .not h => .cons rfl h.flat
  | .primary h => h.flat

theorem DerivesPrimary.flat {ls : List Lexeme} {e : Expr} : DerivesPrimary ls e → Flat ls
  | .literal _ _ => .token rfl
  | .var _ _ => .token rfl
  | .callNone _ _ opening closing => .cons rfl (.group opening closing .nil)
  | .call _ _ opening closing h => .cons rfl (.group opening closing h.flat)
  | .group opening closing h => .group opening closing h.flat

theorem DerivesList.flat {ls : List Lexeme} {es : List Expr} : DerivesList ls es → Flat ls
  | .last h => h.flat
  | .more h hs => h.flat.append (.cons rfl hs.flat)

end

/-- Flat tokens, at least one of them. -/
def Phrase (ls : List Lexeme) : Prop := Flat ls ∧ ls ≠ []

theorem Phrase.append {ls rs : List Lexeme} (h : Phrase ls) (hrs : Flat rs) : Phrase (ls ++ rs) :=
  ⟨h.1.append hrs, List.append_ne_nil_of_left_ne_nil h.2 rs⟩

theorem Phrase.cons {lexeme : Lexeme} {ls : List Lexeme} (h : lexeme.token.isInline = true)
    (hls : Flat ls) : Phrase (lexeme :: ls) :=
  ⟨.cons h hls, List.cons_ne_nil lexeme ls⟩

namespace Parser
variable {α : Type} {ls : List Lexeme}

theorem takes_expression : Takes expression ls fun _ taken => Phrase taken := by
  intro e rest h
  obtain ⟨taken, htaken, hderives, -⟩ :=
    yields_expressionWithin (ls.length + 1) ls e rest (Nat.le_succ _) h
  exact ⟨taken, htaken, hderives.flat, hderives.starts.ne_nil⟩

theorem takes_identifier : Takes identifier ls fun _ taken => Phrase taken := by
  refine takes_next.bind fun found taken rest ⟨_, htaken⟩ => ?_
  split
  · refine takes_pure ?_
    rw [htaken]
    exact .cons rfl .nil
  · exact takes_unexpected

theorem takes_type : Takes type ls fun _ taken => Phrase taken := by
  refine takes_next.bind fun found taken rest ⟨_, htaken⟩ => ?_
  split
  · refine takes_pure ?_
    rw [htaken]
    exact .cons rfl .nil
  · exact takes_unexpected

theorem takes_declaredName : Takes declaredName ls fun _ taken => Phrase taken := by
  refine takes_nextLine fun line => takes_identifier.bind fun name taken rest hname => ?_
  refine takes_ite (fun _ => takes_throw) fun _ => takes_pure ?_
  exact hname.append .nil

/-! ## Lists -/

/-- Flat tokens and the parenthesis that closes them. -/
def Closing (ls : List Lexeme) : Prop :=
  ∃ inner closing, ls = inner ++ [⟨.punct .rparen, closing⟩] ∧ Flat inner

theorem Closing.append {ls rs : List Lexeme} (hls : Flat ls) (hrs : Closing rs) :
    Closing (ls ++ rs) := by
  obtain ⟨inner, closing, rfl, hinner⟩ := hrs
  exact ⟨ls ++ inner, closing, (List.append_assoc ..).symm, hls.append hinner⟩

theorem Closing.group {ls : List Lexeme} (h : Closing ls) (opening : Span) :
    Flat (⟨.punct .lparen, opening⟩ :: ls) := by
  obtain ⟨inner, closing, rfl, hinner⟩ := h
  exact .group opening closing hinner

section Lists
variable {item : Parser α} (hitem : ∀ ls, Takes item ls fun _ taken => Phrase taken)
include hitem

theorem takes_itemsToClose (bound : Nat) :
    Takes (itemsToClose item bound) ls fun _ taken => Closing taken := by
  induction bound generalizing ls with
  | zero => exact takes_unexpected
  | succ bound ih =>
    refine (hitem ls).bind fun first taken rest hfirst => ?_
    refine takes_next.bind fun found taken' rest' ⟨_, htaken⟩ => ?_
    split
    · refine ih.bind fun others taken'' _ hothers => takes_pure ?_
      rw [htaken, List.append_nil]
      exact .append hfirst.1 (.append (.token rfl) hothers)
    · refine takes_pure ?_
      rw [htaken, List.append_nil]
      exact ⟨taken, _, rfl, hfirst.1⟩
    · exact takes_unexpected
    · exact takes_unexpected

theorem takes_closedList : Takes (closedList item) ls fun _ taken => Closing taken := by
  refine takes_acceptThen (fun closing rest => ?_) (takes_get (takes_itemsToClose hitem _))
  exact takes_pure ⟨[], closing, rfl, .nil⟩

theorem takes_itemsWithCommas (bound : Nat) :
    Takes (itemsWithCommas item bound) ls fun _ taken => Phrase taken := by
  induction bound generalizing ls with
  | zero => exact (hitem ls).bind fun first taken rest hfirst => takes_pure (hfirst.append .nil)
  | succ bound ih =>
    refine (hitem ls).bind fun first taken rest hfirst => ?_
    refine takes_acceptThen (fun comma rest' => ?_) (takes_pure (hfirst.append .nil))
    refine ih.bind fun others taken' _ hothers => takes_pure ?_
    exact hfirst.append (.cons rfl (hothers.1.append .nil))

theorem takes_openList : Takes (openList item) ls fun _ taken => Phrase taken :=
  takes_get (takes_itemsWithCommas hitem _)

end Lists

end Parser
end Pseudocode
