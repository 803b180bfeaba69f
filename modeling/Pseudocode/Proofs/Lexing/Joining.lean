import Pseudocode.Proofs.Lexing.RoundTrip

/-! # Joining in two passes

Words are joined while they arrive: what two of them join to is compared again with what stands
before. The result is that of two passes over the whole row, one for the heads of loops and then one
for the closing keywords, and nothing in it is left to be joined.

* `joinPairs`: one pass, by one rule.
* `push_joinless`: the words so far never leave a pair to be joined.
* `joinWords_passes`: what all words together come to. -/

namespace Pseudocode
set_option autoImplicit false

/-! ## Passes -/

/-- The head of a loop, of two names. -/
def loopHead? : Token → Token → Option Token
  | .ident first, .ident second =>
    if Text.sameAsciiWord first "tant" && Text.sameAsciiWord second "que" then
      some (.keyword .tantQue)
    else none
  | _, _ => none

/-- The closing keyword, of `FIN` and the keyword that it closes. -/
def closing? : Token → Token → Option Token
  | .keyword .fin, .keyword .si => some (.keyword .finSi)
  | .keyword .fin, .keyword .pour => some (.keyword .finPour)
  | .keyword .fin, .keyword .tantQue => some (.keyword .finTantQue)
  | _, _ => none

/-- The row with every two neighbours that a rule joins replaced, from left to right, by what they
join to, at the place of the first. What was replaced is not joined again in the same pass. -/
def joinPairs (rule : Token → Token → Option Token) : List Lexeme → List Lexeme
  | [] => []
  | [lexeme] => [lexeme]
  | first :: second :: rest =>
    match rule first.token second.token with
    | some token => ⟨token, first.span⟩ :: joinPairs rule rest
    | none => first :: joinPairs rule (second :: rest)

/-- The heads of loops are joined in a first pass and the closing keywords in a second one. -/
def joinInPasses (row : List Lexeme) : List Lexeme := joinPairs closing? (joinPairs loopHead? row)

theorem join?_eq (first second : Token) :
    join? first second = (loopHead? first second).or (closing? first second) := by
  fun_cases join? first second with
  | case1 | case2 | case3 => rfl
  | case4 first second hwords =>
    rw [loopHead?, if_pos hwords]
    rfl
  | case5 first second hwords =>
    rw [loopHead?, if_neg hwords]
    rfl
  | case6 first second hsi hpour htantQue hidents =>
    have hloop : loopHead? first second = none := by
      unfold loopHead?
      split
      · exact (hidents _ _ rfl rfl).elim
      · rfl
    have hclosing : closing? first second = none := by
      unfold closing?
      split <;> simp_all
    rw [hloop, hclosing, Option.or_none]

section Rule
variable {rule : Token → Token → Option Token}

/-- A row in which the rule joins nothing. -/
abbrev Joinless (rule : Token → Token → Option Token) (row : List Lexeme) : Prop :=
  row.IsChain fun first second => rule first.token second.token = none

/-- A token that the rule joins with no other one. -/
def Inert (rule : Token → Token → Option Token) (token : Token) : Prop :=
  ∀ other, rule other token = none ∧ rule token other = none

theorem joinPairs_append {row : List Lexeme} {next : Lexeme} (h : Joinless rule (row ++ [next]))
    (rest : List Lexeme) :
    joinPairs rule (row ++ next :: rest) = row ++ joinPairs rule (next :: rest) := by
  induction row with
  | nil => rfl
  | cons first row ih =>
    have htail := ih h.tail
    cases row with
    | nil =>
      have hpair : rule first.token next.token = none := by simpa using h
      simp only [List.cons_append, List.nil_append, joinPairs, hpair]
    | cons second row =>
      have hpair : rule first.token second.token = none := h.rel
      simp only [List.cons_append, joinPairs, hpair] at htail ⊢
      rw [htail]

theorem joinPairs_of_joinless {row : List Lexeme} (h : Joinless rule row) :
    joinPairs rule row = row := by
  rcases row.eq_nil_or_concat' with rfl | ⟨init, last, rfl⟩
  · rfl
  · rw [joinPairs_append h]
    rfl

theorem joinPairs_pair {row : List Lexeme} {first second : Lexeme} {token : Token}
    (h : Joinless rule (row ++ [first])) (hpair : rule first.token second.token = some token)
    (rest : List Lexeme) :
    joinPairs rule (row ++ first :: second :: rest) =
      row ++ ⟨token, first.span⟩ :: joinPairs rule rest := by
  rw [joinPairs_append h, joinPairs, hpair]

theorem joinPairs_inert {row : List Lexeme} {lexeme : Lexeme} (h : Joinless rule row)
    (hinert : Inert rule lexeme.token) (rest : List Lexeme) :
    joinPairs rule (row ++ lexeme :: rest) = row ++ lexeme :: joinPairs rule rest := by
  have hrow : Joinless rule (row ++ [lexeme]) :=
    List.isChain_append.2 ⟨h, .singleton _, fun last _ next hnext => by
      obtain rfl := Option.some.inj hnext
      exact (hinert last.token).1⟩
  rw [joinPairs_append hrow]
  cases rest with
  | nil => rfl
  | cons next rest => rw [joinPairs, (hinert next.token).2]

end Rule

/-! ## The two rules -/

theorem loopHead?_keyword (word : Keyword) : Inert loopHead? (.keyword word) := by
  intro other
  constructor
  · cases other <;> rfl
  · rfl

/-- What is joined is the head of a loop, or it is a closing keyword, of two keywords. -/
theorem join?_eq_some {first second token : Token} (h : join? first second = some token) :
    loopHead? first second = some token ∧ (∃ word, token = .keyword word) ∨
      closing? first second = some token ∧ Inert closing? token ∧
        ∃ word word' word'', first = .keyword word ∧ second = .keyword word' ∧
          token = .keyword word'' := by
  have hinert (word : Keyword) (hword : word ≠ .fin ∧ word ≠ .si ∧ word ≠ .pour ∧ word ≠ .tantQue) :
      Inert closing? (.keyword word) := by
    intro other
    constructor
    · unfold closing?
      split <;> simp_all
    · unfold closing?
      split <;> simp_all
  unfold join? at h
  split at h
  case h_4 =>
    refine .inl ⟨h, ?_⟩
    split at h
    · exact ⟨.tantQue, (Option.some.inj h).symm⟩
    · cases h
  case h_5 => cases h
  all_goals
    obtain rfl := Option.some.inj h
    exact .inr ⟨rfl, hinert _ (by decide), _, _, _, rfl, rfl, rfl⟩

theorem join?_eq_none {first second : Token} (h : join? first second = none) :
    loopHead? first second = none ∧ closing? first second = none := by
  rw [join?_eq] at h
  exact Option.or_eq_none_iff.1 h

theorem Joinless.rules {row : List Lexeme} (h : Joinless join? row) :
    Joinless loopHead? row ∧ Joinless closing? row :=
  ⟨h.imp fun _ _ hpair => (join?_eq_none hpair).1, h.imp fun _ _ hpair => (join?_eq_none hpair).2⟩

/-- Two neighbours that are not joined spell nothing together. -/
theorem separate_of_join? {first second : Token} (h : join? first second = none) :
    Separate first second := by
  intro joined hspells
  have hjoined : join? first second = some joined := by
    cases hspells with
    | tantQue hfirst hsecond =>
      rw [join?, hfirst, hsecond]
      rfl
    | finSi | finPour | finTantQue => rfl
  rw [h] at hjoined
  cases hjoined

/-! ## Words one by one -/

/-- The words so far leave nothing to be joined. They are given from the last to the first. -/
theorem push_joinless {before : List Lexeme} (h : Joinless join? before.reverse) (lexeme : Lexeme) :
    Joinless join? (push before lexeme).reverse := by
  induction before generalizing lexeme with
  | nil => exact .singleton _
  | cons last before ih =>
    rw [List.reverse_cons] at h
    rw [push]
    cases hjoin : join? last.token lexeme.token with
    | some token => exact ih h.left_of_append _
    | none =>
      rw [List.reverse_cons, List.reverse_cons]
      refine List.isChain_append.2 ⟨h, .singleton _, fun earlier hearlier later hlater => ?_⟩
      rw [List.getLast?_concat] at hearlier
      obtain rfl := Option.some.inj hearlier
      obtain rfl := Option.some.inj hlater
      exact hjoin

/-- Two passes do not tell a pair from what it joins to, where nothing before is left to be
joined. -/
theorem joinInPasses_pair {row : List Lexeme} {first second : Lexeme} {token : Token}
    (h : Joinless join? (row ++ [first])) (hjoin : join? first.token second.token = some token)
    (rest : List Lexeme) :
    joinInPasses (row ++ first :: second :: rest) =
      joinInPasses (row ++ ⟨token, first.span⟩ :: rest) := by
  obtain ⟨hloops, hclosings⟩ := h.rules
  unfold joinInPasses
  obtain ⟨hjoin, word, rfl⟩ | ⟨hjoin, hinert, word, word', word'', hfirst, hsecond, rfl⟩ :=
    join?_eq_some hjoin
  · -- the first pass joins the pair
    rw [joinPairs_pair hloops hjoin, joinPairs_inert hloops.left_of_append (loopHead?_keyword word)]
  · -- the first pass leaves the pair as it is, and the second one joins it
    have hfirst' : Inert loopHead? first.token := hfirst ▸ loopHead?_keyword word
    have hsecond' : Inert loopHead? second.token := hsecond ▸ loopHead?_keyword word'
    have hpair : joinPairs loopHead? (row ++ first :: second :: rest) =
        row ++ first :: second :: joinPairs loopHead? rest := by
      rw [joinPairs_inert hloops.left_of_append hfirst']
      exact congrArg (row ++ first :: ·) (joinPairs_inert .nil hsecond' rest)
    rw [hpair, joinPairs_pair hclosings hjoin,
      joinPairs_inert hloops.left_of_append (loopHead?_keyword word''),
      joinPairs_inert hclosings.left_of_append hinert]

theorem joinInPasses_push {before : List Lexeme} (h : Joinless join? before.reverse)
    (lexeme : Lexeme) (rest : List Lexeme) :
    joinInPasses ((push before lexeme).reverse ++ rest) =
      joinInPasses (before.reverse ++ lexeme :: rest) := by
  induction before generalizing lexeme with
  | nil => rfl
  | cons last before ih =>
    rw [List.reverse_cons] at h
    rw [push]
    cases hjoin : join? last.token lexeme.token with
    | some token =>
      rw [List.reverse_cons, List.append_assoc, List.singleton_append, joinInPasses_pair h hjoin]
      exact ih h.left_of_append _
    | none => rw [List.reverse_cons, List.append_assoc, List.singleton_append]

/-- The induction is on the words that are still to come. -/
theorem foldl_push_passes (lexemes before : List Lexeme)
    (h : Joinless join? before.reverse) :
    Joinless join? (lexemes.foldl push before).reverse ∧
      (lexemes.foldl push before).reverse = joinInPasses (before.reverse ++ lexemes) := by
  induction lexemes generalizing before with
  | nil =>
    rw [List.foldl_nil, List.append_nil, joinInPasses, joinPairs_of_joinless h.rules.1,
      joinPairs_of_joinless h.rules.2]
    exact ⟨h, rfl⟩
  | cons lexeme lexemes ih =>
    rw [List.foldl_cons, ← joinInPasses_push h]
    exact ih _ (push_joinless h lexeme)

/-- Words that arrive one by one, where a new line is only put behind the others, come to what two
passes over all of them do: first the heads of loops, then the closing keywords, each at the place
of its first word. No two neighbours in the result spell a keyword together. -/
theorem joinWords_passes (lexemes : List Lexeme) :
    ((joinWords lexemes).map Lexeme.token).IsChain Separate ∧
    joinWords lexemes = joinPairs closing? (joinPairs loopHead? lexemes) ∧
    ∀ before span, push before ⟨.newline, span⟩ = ⟨.newline, span⟩ :: before := by
  obtain ⟨hjoinless, hpasses⟩ := foldl_push_passes lexemes [] .nil
  refine ⟨?_, hpasses, fun before span => push_of_separate fun last _ => ?_⟩
  · exact List.isChain_map _ |>.2 (hjoinless.imp fun _ _ => separate_of_join?)
  · cases last.token with
    | keyword word => cases word <;> rfl
    | _ => rfl

example : joinWords [⟨.keyword .fin, ⟨1, 1⟩⟩, ⟨.keyword .fin, ⟨1, 5⟩⟩, ⟨.ident "Tant", ⟨1, 9⟩⟩,
    ⟨.ident "QUE", ⟨1, 14⟩⟩] = [⟨.keyword .fin, ⟨1, 1⟩⟩, ⟨.keyword .finTantQue, ⟨1, 5⟩⟩] := by
  decide

end Pseudocode
