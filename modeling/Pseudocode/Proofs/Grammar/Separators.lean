import Pseudocode.Grammar.Statement
import Pseudocode.Proofs.Grammar.SingleTokens

/-! # Rows that differ in their separators

A separator only ends what stands before it. Two rows of tokens are the same but for their
separators if they have separators at the same places, however many and of whichever kind, and the
first of each run stands on the same line. On two such rows a parser either builds the same and
leaves two such rows again, or it fails on both, on the same line and for the same reason.

* `SameRows`: the two rows, with the number of tokens that are no separators.
* `Parser.Matches`: two parsers that cannot tell such rows apart. They are one parser with two
  bounds, since rows of different length are read with different bounds.
* `matches_expression`, `matches_block`: expressions and blocks. -/

namespace Pseudocode
set_option autoImplicit false

/-! ## Rows and errors -/

/-- Rows that are the same but for their separators; `n` other tokens stand in each of them. -/
inductive SameRows : Nat → List Lexeme → List Lexeme → Prop where
  | nil : SameRows 0 [] []
  | token {n : Nat} {lexeme : Lexeme} {ls ls' : List Lexeme} : lexeme.token.isSeparator = false →
      SameRows n ls ls' → SameRows (n + 1) (lexeme :: ls) (lexeme :: ls')
  | separators {n : Nat} {mark mark' : Lexeme} {ls ls' : List Lexeme} :
      mark.token.isSeparator = true → mark'.token.isSeparator = true → mark'.span = mark.span →
      SameRows n (ls.dropWhile (·.token.isSeparator)) (ls'.dropWhile (·.token.isSeparator)) →
      SameRows n (mark :: ls) (mark' :: ls')

/-- Two errors of one kind on one line. If they are not the same, then the token that was found is
a separator in both. -/
inductive SyntaxError.Alike : SyntaxError → SyntaxError → Prop where
  | same {error : SyntaxError} : Alike error error
  | separator {expected : Expected} {found found' : Token} {line : Nat} :
      found.isSeparator = true → found'.isSeparator = true →
      Alike ⟨.unexpectedToken expected found, line⟩ ⟨.unexpectedToken expected found', line⟩

theorem Token.isSeparator_iff {token : Token} :
    token.isSeparator = true ↔ token = .newline ∨ token = .punct .semicolon := by
  unfold Token.isSeparator
  split <;> simp_all

/-- What holds of both separators holds of any. -/
@[elab_as_elim]
theorem Lexeme.of_separator {motive : Lexeme → Prop} {mark : Lexeme}
    (h : mark.token.isSeparator = true) (newline : ∀ span, motive ⟨.newline, span⟩)
    (semicolon : ∀ span, motive ⟨.punct .semicolon, span⟩) : motive mark := by
  obtain ⟨token, span⟩ := mark
  rcases Token.isSeparator_iff.1 h with rfl | rfl
  · exact newline span
  · exact semicolon span

namespace SameRows
variable {n : Nat} {ls ls' : List Lexeme}

/-- A bound above the length of either row is above the number of its tokens. -/
theorem bounds (h : SameRows n ls ls') : n < ls.length + 1 ∧ n < ls'.length + 1 := by
  induction h with
  | nil => exact ⟨Nat.zero_lt_one, Nat.zero_lt_one⟩
  | token _ _ ih =>
    simp only [List.length_cons]
    omega
  | @separators n mark mark' ls ls' _ _ _ _ ih =>
    have hleft := (List.dropWhile_suffix (·.token.isSeparator) (l := ls)).length_le
    have hright := (List.dropWhile_suffix (·.token.isSeparator) (l := ls')).length_le
    simp only [List.length_cons]
    omega

/-- A token that is no separator is the next one of both rows or of none. -/
theorem next_iff (h : SameRows n ls ls') {token : Token} (htoken : token.isSeparator = false) :
    ls.head?.map Lexeme.token = some token ↔ ls'.head?.map Lexeme.token = some token := by
  cases h with
  | nil => exact Iff.rfl
  | token => exact Iff.rfl
  | separators hmark hmark' =>
    simp only [List.head?_cons, Option.map_some, Option.some.injEq]
    constructor <;> rintro rfl <;> simp_all

theorem dropWhile (h : SameRows n ls ls') :
    SameRows n (ls.dropWhile (·.token.isSeparator)) (ls'.dropWhile (·.token.isSeparator)) := by
  cases h with
  | nil => exact .nil
  | token hlexeme hrows =>
    rw [List.dropWhile_cons_of_neg (by simp [hlexeme]),
      List.dropWhile_cons_of_neg (by simp [hlexeme])]
    exact .token hlexeme hrows
  | separators hmark hmark' _ hrows =>
    rw [List.dropWhile_cons_of_pos (by simp [hmark]),
      List.dropWhile_cons_of_pos (by simp [hmark'])]
    exact hrows

/-- After its separators a row ends, or goes on with a token that is none. -/
theorem dropWhile_cases (h : SameRows n ls ls') :
    n = 0 ∧ ls.dropWhile (·.token.isSeparator) = [] ∧
      ls'.dropWhile (·.token.isSeparator) = [] ∨
    ∃ lexeme m rest rest', lexeme.token.isSeparator = false ∧ n = m + 1 ∧ SameRows m rest rest' ∧
      ls.dropWhile (·.token.isSeparator) = lexeme :: rest ∧
      ls'.dropWhile (·.token.isSeparator) = lexeme :: rest' := by
  have hrows := h.dropWhile
  have hhead := List.head?_dropWhile_not (fun l : Lexeme => l.token.isSeparator) ls
  generalize ls.dropWhile (·.token.isSeparator) = skipped at hrows hhead ⊢
  generalize ls'.dropWhile (·.token.isSeparator) = skipped' at hrows ⊢
  cases hrows with
  | nil => exact .inl ⟨rfl, rfl, rfl⟩
  | token hlexeme hrest => exact .inr ⟨_, _, _, _, hlexeme, rfl, hrest, rfl, rfl⟩
  | separators hmark => simp_all

end SameRows

namespace Parser
variable {n k j : Nat} {α β : Type}

/-! ## Parsers that match -/

/-- Two results on rows with `n` tokens: the same was built from at least `k` of them and such rows
are left, or both failed alike. -/
inductive Matched (n k : Nat) :
    Except SyntaxError (α × List Lexeme) → Except SyntaxError (α × List Lexeme) → Prop where
  | ok {a : α} {m : Nat} {rest rest' : List Lexeme} : m + k ≤ n → SameRows m rest rest' →
      Matched n k (.ok (a, rest)) (.ok (a, rest'))
  | error {e e' : SyntaxError} : e.Alike e' → Matched n k (.error e) (.error e')

/-- What was built from the tokens that are left was built from all tokens. -/
theorem Matched.after {m i : Nat} {r r' : Except SyntaxError (α × List Lexeme)}
    (h : Matched m (k - i) r r') (hm : m + i ≤ n) : Matched n k r r' := by
  cases h with
  | error halike => exact .error halike
  | ok hm' hrest => exact .ok (by omega) hrest

theorem Matched.weaken {r r' : Except SyntaxError (α × List Lexeme)} (h : Matched n k r r') :
    Matched n 0 r r' := by
  cases h with
  | error halike => exact .error halike
  | ok hm hrest => exact .ok (by omega) hrest

def Matches (n k : Nat) (p p' : Parser α) : Prop :=
  ∀ ls ls', SameRows n ls ls' → Matched n k (p ls) (p' ls')

/-- What the first parser takes counts for the sequence. -/
theorem Matches.bind {p p' : Parser α} {f f' : α → Parser β} (hp : Matches n k p p')
    (hf : ∀ a m, m + k ≤ n → Matches m (j - k) (f a) (f' a)) :
    Matches n j (p >>= f) (p' >>= f') := by
  intro ls ls' hrows
  have hfirst := hp ls ls' hrows
  change Matched n j (p ls >>= fun r => f r.1 r.2) (p' ls' >>= fun r => f' r.1 r.2)
  generalize p ls = result at hfirst ⊢
  generalize p' ls' = result' at hfirst ⊢
  cases hfirst with
  | error halike => exact .error halike
  | @ok a m rest rest' hm hrest => exact (hf a m hm rest rest' hrest).after hm

/-- Without tokens a parser that takes one fails, and what would follow does not matter. -/
theorem Matches.bind_empty {p p' : Parser α} {f f' : α → Parser β} (hp : Matches n 1 p p')
    (hn : n = 0) : Matches n k (p >>= f) (p' >>= f') :=
  hp.bind fun _ _ hm => by omega

theorem Matches.weaken {p p' : Parser α} (hp : Matches n k p p') : Matches n 0 p p' :=
  fun ls ls' hrows => (hp ls ls' hrows).weaken

theorem matches_pure (a : α) : Matches n 0 (pure a) (pure a) :=
  fun _ _ hrows => .ok (Nat.le_refl n) hrows

theorem Matches.map {p p' : Parser α} (f : α → β) (hp : Matches n k p p') :
    Matches n k (f <$> p) (f <$> p') := by
  rw [map_eq_pure_bind, map_eq_pure_bind]
  refine hp.bind fun a m _ => ?_
  rw [Nat.sub_self]
  exact matches_pure (f a)

theorem matches_throw (e : SyntaxError) : Matches n k (throw e : Parser α) (throw e) :=
  fun _ _ _ => .error .same

theorem matches_unexpected (expected : Expected) (found : Option Lexeme) :
    Matches n k (unexpected expected found : Parser α) (unexpected expected found) := by
  intro ls ls' _
  cases found with
  | none => exact .error .same
  | some lexeme => exact .error .same

theorem matches_get {f f' : List Lexeme → Parser β}
    (h : ∀ ls ls', SameRows n ls ls' → Matches n k (f ls) (f' ls')) :
    Matches n k (get >>= f) (get >>= f') :=
  fun ls ls' hrows => h ls ls' hrows ls ls' hrows

/-! ## Single tokens -/

/-- What comes after a separator was taken fails, since `expected` should have stood there. -/
def Refuses (expected : Expected) (f : Option Lexeme → Parser β) : Prop :=
  ∀ span, f (some ⟨.newline, span⟩) = unexpected expected (some ⟨.newline, span⟩) ∧
    f (some ⟨.punct .semicolon, span⟩) = unexpected expected (some ⟨.punct .semicolon, span⟩)

theorem Refuses.apply {expected : Expected} {f : Option Lexeme → Parser β} (h : Refuses expected f)
    {mark : Lexeme} (hmark : mark.token.isSeparator = true) :
    f (some mark) = unexpected expected (some mark) :=
  Lexeme.of_separator hmark (fun span => (h span).1) fun span => (h span).2

theorem matches_next (expected : Expected) {f f' : Option Lexeme → Parser β}
    (hmark : Refuses expected f) (hmark' : Refuses expected f')
    (hend : Matches n j (f none) (f' none))
    (htoken : ∀ lexeme m, m + 1 ≤ n → Matches m (j - 1) (f (some lexeme)) (f' (some lexeme))) :
    Matches n j (next? >>= f) (next? >>= f') := by
  intro ls ls' hrows
  cases hrows with
  | nil => exact hend [] [] .nil
  | @token m lexeme ls ls' hlexeme hrows =>
    exact (htoken lexeme m (Nat.le_refl _) ls ls' hrows).after (Nat.le_refl _)
  | @separators n mark mark' ls ls' hm hm' hspan hrows =>
    change Matched n j (f (some mark) ls) (f' (some mark') ls')
    rw [hmark.apply hm, hmark'.apply hm']
    simp only [unexpected, hspan]
    exact .error (.separator hm hm')

/-- What comes after a look at the next token is the same for a separator as for the end. -/
def Overlooks (f : Option Lexeme → Parser β) : Prop :=
  ∀ span, f (some ⟨.newline, span⟩) = f none ∧ f (some ⟨.punct .semicolon, span⟩) = f none

theorem Overlooks.apply {f : Option Lexeme → Parser β} (h : Overlooks f) {mark : Lexeme}
    (hmark : mark.token.isSeparator = true) : f (some mark) = f none :=
  Lexeme.of_separator hmark (fun span => (h span).1) fun span => (h span).2

theorem matches_peek {f f' : Option Lexeme → Parser β} (hmark : Overlooks f)
    (hmark' : Overlooks f') (hend : Matches n k (f none) (f' none))
    (htoken : ∀ lexeme m ls ls', m + 1 = n → SameRows m ls ls' →
      SameRows n (lexeme :: ls) (lexeme :: ls') →
      Matched n k (f (some lexeme) (lexeme :: ls)) (f' (some lexeme) (lexeme :: ls'))) :
    Matches n k (peek? >>= f) (peek? >>= f') := by
  intro ls ls' hrows
  cases hrows with
  | nil => exact hend [] [] .nil
  | @token m lexeme ls ls' hlexeme hrows =>
    exact htoken lexeme m ls ls' rfl hrows (.token hlexeme hrows)
  | @separators n mark mark' ls ls' hm hm' hspan hrows =>
    change Matched n k (f (some mark) (mark :: ls)) (f' (some mark') (mark' :: ls'))
    rw [hmark.apply hm, hmark'.apply hm']
    exact hend _ _ (.separators hm hm' hspan hrows)

theorem matches_accept {token : Token} (h : token.isSeparator = false) :
    Matches n 0 (accept token) (accept token) := by
  intro ls ls' hrows
  have hnext := hrows.next_iff h
  by_cases hls : nextToken? ls = some token
  · cases hrows with
    | nil => cases hls
    | @token m lexeme ls ls' hlexeme hrest =>
      obtain ⟨found, span⟩ := lexeme
      obtain rfl : found = token := Option.some.inj hls
      rw [accept_pos, accept_pos]
      exact .ok (Nat.le_succ m) hrest
    | separators hm =>
      rw [Option.some.inj hls, h] at hm
      cases hm
  · have hls' : nextToken? ls' ≠ some token := fun heq => hls (hnext.2 heq)
    rw [accept_neg hls, accept_neg hls']
    exact .ok (Nat.le_refl n) hrows

/-- The next token has to pass a test that no separator passes. -/
theorem matches_check (expected : Expected) (c : Option Token → Prop) [DecidablePred c]
    (hnone : ¬c none) (hmark : ∀ token, token.isSeparator = true → ¬c (some token)) :
    Matches n 1
      (do
        let found ← next?
        if c (found.map Lexeme.token) then pure () else unexpected expected found)
      (do
        let found ← next?
        if c (found.map Lexeme.token) then pure () else unexpected expected found) := by
  have hrefuses : Refuses expected fun found : Option Lexeme =>
      if c (found.map Lexeme.token) then pure () else unexpected expected found :=
    fun span => ⟨if_neg (hmark .newline rfl), if_neg (hmark (.punct .semicolon) rfl)⟩
  refine matches_next expected hrefuses hrefuses ?_ fun lexeme m _ => ?_
  · rw [Option.map_none, if_neg hnone]
    exact matches_unexpected expected none
  · split
    · exact matches_pure ()
    · exact matches_unexpected expected (some lexeme)

theorem matches_expect {token : Token} (h : token.isSeparator = false) :
    Matches n 1 (expect token) (expect token) := by
  refine matches_check (.token token) (· = some token) nofun fun found hfound heq => ?_
  rw [Option.some.inj heq, h] at hfound
  cases hfound

theorem matches_expectEither {token other : Token} (h : token.isSeparator = false)
    (hother : other.isSeparator = false) :
    Matches n 1 (expectEither token other) (expectEither token other) := by
  refine matches_check (.token token) (fun t => t = some token ∨ t = some other) (by simp)
    fun found hfound heq => ?_
  rcases heq with heq | heq
  · rw [Option.some.inj heq, h] at hfound
    cases hfound
  · rw [Option.some.inj heq, hother] at hfound
    cases hfound

theorem matches_nextLine {f f' : Nat → Parser β} (h : ∀ line, Matches n k (f line) (f' line)) :
    Matches n k (nextLine >>= f) (nextLine >>= f') := by
  intro ls ls' hrows
  have hline : (ls'.head?.map (·.span.line)).getD 0 = (ls.head?.map (·.span.line)).getD 0 := by
    cases hrows with
    | nil => rfl
    | token => rfl
    | separators _ _ hspan => exact congrArg Span.line hspan
  change Matched n k (f _ ls) (f' _ ls')
  rw [hline]
  exact h _ ls ls' hrows

theorem matches_identifier : Matches n 1 identifier identifier := by
  refine matches_next .identifier (fun _ => ⟨rfl, rfl⟩) (fun _ => ⟨rfl, rfl⟩)
    (matches_unexpected _ _) fun lexeme m _ => ?_
  obtain ⟨token, span⟩ := lexeme
  cases token with
  | ident name => exact matches_pure name
  | _ => exact matches_unexpected _ _

theorem matches_skipSeparators : Matches n 0 skipSeparators skipSeparators :=
  fun _ _ hrows => .ok (Nat.le_refl n) hrows.dropWhile

theorem matches_skip {f f' : Unit → Parser β} (hend : n = 0 → Matched n k (f () []) (f' () []))
    (htoken : ∀ lexeme m ls ls', m + 1 = n → SameRows m ls ls' →
      SameRows n (lexeme :: ls) (lexeme :: ls') →
      Matched n k (f () (lexeme :: ls)) (f' () (lexeme :: ls'))) :
    Matches n k (skipSeparators >>= f) (skipSeparators >>= f') := by
  intro ls ls' hrows
  change Matched n k (f () (ls.dropWhile (·.token.isSeparator)))
    (f' () (ls'.dropWhile (·.token.isSeparator)))
  rcases hrows.dropWhile_cases with
    ⟨hn, hls, hls'⟩ | ⟨lexeme, m, rest, rest', h, hn, hrest, hls, hls'⟩
  · rw [hls, hls']
    exact hend hn
  · rw [hls, hls']
    exact htoken lexeme m rest rest' hn.symm hrest (hn ▸ .token h hrest)

/-! ## Lists

Here and below the two parsers have bounds of their own, and either is enough for the rows. -/

section Lists
variable {item item' : Parser α} {b b' : Nat}

theorem matches_itemsToClose (hitem : ∀ m ≤ n, Matches m 0 item item') (hb : n < b)
    (hb' : n < b') : Matches n 0 (itemsToClose item b) (itemsToClose item' b') := by
  induction b generalizing b' n with
  | zero => omega
  | succ b ih =>
    obtain ⟨b', rfl⟩ := Nat.exists_eq_succ_of_ne_zero (show b' ≠ 0 by omega)
    refine (hitem n (Nat.le_refl n)).bind fun first m hm => ?_
    refine matches_next .commaOrClose (fun _ => ⟨rfl, rfl⟩) (fun _ => ⟨rfl, rfl⟩)
      (matches_unexpected _ _) fun lexeme m' hm' => ?_
    obtain ⟨token, span⟩ := lexeme
    cases token with
    | punct mark =>
      cases mark with
      | comma =>
        have hrest := ih (fun m hle => hitem m (by omega)) (show m' < b by omega)
          (show m' < b' by omega)
        exact hrest.bind fun rest _ _ => matches_pure (first :: rest)
      | rparen => exact matches_pure [first]
      | _ => exact matches_unexpected _ _
    | _ => exact matches_unexpected _ _

theorem matches_closedList (hitem : ∀ m ≤ n, Matches m 0 item item') :
    Matches n 0 (closedList item) (closedList item') := by
  refine (matches_accept rfl).bind fun taken m hm => ?_
  cases taken with
  | true => exact matches_pure []
  | false =>
    refine matches_get fun ls ls' hrows => ?_
    exact matches_itemsToClose (fun m' hm' => hitem m' (by omega)) hrows.bounds.1 hrows.bounds.2

theorem matches_itemsWithCommas (hitem : ∀ m ≤ n, Matches m 1 item item') (hb : n ≤ b)
    (hb' : n ≤ b') : Matches n 1 (itemsWithCommas item b) (itemsWithCommas item' b') := by
  have hfirst := hitem n (Nat.le_refl n)
  induction b generalizing b' n with
  | zero => cases b' <;> exact hfirst.bind_empty (Nat.le_zero.1 hb)
  | succ b ih =>
    cases b' with
    | zero => exact hfirst.bind_empty (Nat.le_zero.1 hb')
    | succ b' =>
      refine hfirst.bind fun first m hm => (matches_accept rfl).bind fun taken m' hm' => ?_
      cases taken with
      | true =>
        have hrest := ih (fun m hle => hitem m (by omega)) (show m' ≤ b by omega)
          (show m' ≤ b' by omega) (hitem m' (by omega))
        exact hrest.bind fun rest _ _ => matches_pure (first :: rest)
      | false => exact matches_pure [first]

theorem matches_openList (hitem : ∀ m ≤ n, Matches m 1 item item') :
    Matches n 1 (openList item) (openList item') :=
  matches_get fun _ _ hrows =>
    matches_itemsWithCommas hitem (Nat.le_of_lt_succ hrows.bounds.1)
      (Nat.le_of_lt_succ hrows.bounds.2)

end Lists

/-! ## Expressions -/

section Expressions
variable {b b' : Nat}

theorem matches_chain {operand operand' : Parser Expr}
    (hoperand : ∀ m ≤ n, Matches m 1 operand operand') (level : Nat) (left : Expr) (hb : n < b)
    (hb' : n < b') :
    Matches n 0 (chain operand level b left) (chain operand' level b' left) := by
  induction b generalizing b' n left with
  | zero => omega
  | succ b ih =>
    obtain ⟨b', rfl⟩ := Nat.exists_eq_succ_of_ne_zero (show b' ≠ 0 by omega)
    refine matches_peek (fun _ => ⟨rfl, rfl⟩) (fun _ => ⟨rfl, rfl⟩) (matches_pure left)
      fun lexeme m ls ls' hm hrows hrow => ?_
    obtain ⟨token, span⟩ := lexeme
    cases token with
    | op op =>
      dsimp only
      split
      · have hright := (hoperand m (by omega)).bind (j := 0) fun right m' hm' =>
          ih (fun i hi => hoperand i (by omega)) (.binary left op right span.line)
            (show m' < b by omega) (show m' < b' by omega)
        exact (hright ls ls' hrows).after (i := 1) (by omega)
      · exact matches_pure left _ _ hrow
    | _ => exact matches_pure left _ _ hrow

theorem matches_binary {operand operand' : Parser Expr}
    (hoperand : ∀ m ≤ n, Matches m 1 operand operand') (hb : n < b) (hb' : n < b') (level : Nat) :
    Matches n 1 (binary operand b level) (binary operand' b' level) := by
  induction level generalizing n with
  | zero => exact hoperand n (Nat.le_refl n)
  | succ level ih =>
    refine (ih hoperand hb hb').bind fun left m hm => ?_
    exact matches_chain (fun i hi => ih (fun i' hi' => hoperand i' (by omega)) (by omega)
      (by omega)) level left (by omega) (by omega)

theorem matches_primary {expression expression' : Parser Expr}
    (hexpression : ∀ m < n, Matches m 1 expression expression') (hb : n ≤ b) (hb' : n ≤ b') :
    Matches n 1 (primary expression b) (primary expression' b') := by
  refine matches_next .expression (fun _ => ⟨rfl, rfl⟩) (fun _ => ⟨rfl, rfl⟩)
    (matches_unexpected _ _) fun lexeme m hm => ?_
  obtain ⟨token, span⟩ := lexeme
  cases token with
  | literal value => exact matches_pure (Expr.literal value span.line)
  | ident name =>
    refine (matches_accept rfl).bind fun opened m' hm' => ?_
    cases opened with
    | false => exact matches_pure (Expr.var name span.line)
    | true =>
      refine (matches_accept rfl).bind fun closed m'' hm'' => ?_
      cases closed with
      | true => exact matches_pure (Expr.call name [] span.line)
      | false =>
        have harguments := matches_itemsToClose (fun i hi => (hexpression i (by omega)).weaken)
          (show m'' < b by omega) (show m'' < b' by omega)
        exact harguments.bind fun arguments _ _ =>
          matches_pure (Expr.call name arguments span.line)
  | punct mark =>
    cases mark with
    | lparen =>
      refine (hexpression m (by omega)).bind fun inner m' hm' => ?_
      exact (matches_expect rfl).bind fun _ _ _ => matches_pure inner
    | _ => exact matches_unexpected _ _
  | _ => exact matches_unexpected _ _

theorem matches_prefixed {expression expression' : Parser Expr}
    (hexpression : ∀ m < n, Matches m 1 expression expression') (hb : n < b) (hb' : n < b') :
    Matches n 1 (prefixed expression b) (prefixed expression' b') := by
  induction b generalizing b' n with
  | zero => omega
  | succ b ih =>
    obtain ⟨b', rfl⟩ := Nat.exists_eq_succ_of_ne_zero (show b' ≠ 0 by omega)
    have hprimary := matches_primary (n := n) hexpression (show n ≤ b by omega)
      (show n ≤ b' by omega)
    refine matches_peek (fun _ => ⟨rfl, rfl⟩) (fun _ => ⟨rfl, rfl⟩) hprimary
      fun lexeme m ls ls' hm hrows hrow => ?_
    have hother := hprimary _ _ hrow
    have hoperand := ih (n := m) (fun i hi => hexpression i (by omega)) (show m < b by omega)
      (show m < b' by omega)
    obtain ⟨token, span⟩ := lexeme
    cases token with
    | op op =>
      cases op with
      | sub =>
        have hnegate := hoperand.bind (j := 0) fun operand i _ =>
          matches_pure (Expr.unary .negate operand span.line)
        exact (hnegate ls ls' hrows).after (i := 1) (by omega)
      | _ => exact hother
    | keyword word =>
      cases word with
      | non =>
        have hnot := hoperand.bind (j := 0) fun operand i _ =>
          matches_pure (Expr.unary .not operand span.line)
        exact (hnot ls ls' hrows).after (i := 1) (by omega)
      | _ => exact hother
    | _ => exact hother

theorem matches_expressionWithin (hb : n < b) (hb' : n < b') :
    Matches n 1 (expressionWithin b) (expressionWithin b') := by
  induction b generalizing b' n with
  | zero => omega
  | succ b ih =>
    obtain ⟨b', rfl⟩ := Nat.exists_eq_succ_of_ne_zero (show b' ≠ 0 by omega)
    refine matches_binary (fun m hm => ?_) hb hb' BinOp.levels
    exact matches_prefixed (fun i hi => ih (by omega) (by omega)) (by omega) (by omega)

theorem matches_expression : Matches n 1 expression expression :=
  matches_get fun _ _ hrows => matches_expressionWithin hrows.bounds.1 hrows.bounds.2

end Expressions

end Parser
end Pseudocode
