import Pseudocode.Proofs.Grammar.OpenBlocksProgram

/-! # Counting the blocks of a row

The check of the nesting reads the tokens one by one: it counts a block up at its first word and
down at its last one. Only `JUSQU'A` needs an interpretation. After a `POUR`, up to the next `FAIRE`
or separator, the check takes it for a part of the first line of that loop.

* `Depth.after`: what is open after several tokens.
* `Row.Legal.blocks`: on a row whose numbers go on as its tokens say, the count is the number of
  open blocks plus that of the `JUSQU'A` of a `REPETER` that were taken for parts of first lines.
* `ProgramRow.runs`: the rows of programs are of this kind. -/

namespace Pseudocode
set_option autoImplicit false

open Row (level)

/-! ## After several tokens -/

namespace Depth

/-- What is open after more tokens. -/
def after (d : Depth) (ls : List Lexeme) : Depth := ls.foldl (fun d lexeme => d.step lexeme.token) d

variable {d : Depth} {ls rs : List Lexeme} {lexeme : Lexeme}

@[simp] theorem after_nil : d.after [] = d := rfl

@[simp] theorem after_cons : d.after (lexeme :: ls) = (d.step lexeme.token).after ls := rfl

@[simp] theorem after_append : d.after (ls ++ rs) = (d.after ls).after rs :=
  List.foldl_append ..

theorem check_cons_iff : d.check (lexeme :: ls) = .ok () ↔
    (d.step lexeme.token).total ≤ maxNesting ∧
      (d.step lexeme.token).operators ≤ maxLineOperators ∧
      (d.step lexeme.token).check ls = .ok () := by
  refine ⟨check_cons, fun ⟨hnesting, hoperators, hrest⟩ => ?_⟩
  rw [check, if_neg (Nat.not_lt.2 hnesting), if_neg (Nat.not_lt.2 hoperators)]
  exact hrest

theorem check_append_iff : d.check (ls ++ rs) = .ok () ↔
    d.check ls = .ok () ∧ (d.after ls).check rs = .ok () := by
  induction ls generalizing d with
  | nil => simp [check]
  | cons lexeme ls ih =>
    rw [List.cons_append, check_cons_iff, check_cons_iff, ih, after_cons]
    simp only [and_assoc]

/-- The places of the tokens only matter for the message of the check. -/
theorem check_congr (h : ls.map Lexeme.token = rs.map Lexeme.token) :
    (d.check ls = .ok () ↔ d.check rs = .ok ()) ∧ d.after ls = d.after rs := by
  induction ls generalizing d rs with
  | nil =>
    obtain rfl := List.map_eq_nil_iff.1 h.symm
    exact ⟨Iff.rfl, rfl⟩
  | cons lexeme ls ih =>
    obtain ⟨other, others, rfl, htoken, hrest⟩ := List.map_eq_cons_iff.1 h.symm
    rw [check_cons_iff, check_cons_iff, after_cons, after_cons, htoken]
    exact ⟨by rw [(ih hrest.symm).1], (ih hrest.symm).2⟩

end Depth

/-! ## Moves -/

/-- How the number of open blocks goes on from `n` to `k` at a token: `JUSQU'A` closes one, or it
stands in the first line of a `POUR`, which then is open for the check as well. -/
def Depth.Moves (d : Depth) (n : Nat) (token : Token) (k : Nat) : Prop :=
  match token with
  | .keyword .si | .keyword .pour | .keyword .tantQue | .keyword .repeter => k = n + 1
  | .keyword .finSi | .keyword .finPour | .keyword .finTantQue => n = k + 1
  | .keyword .jusqua => n = k + 1 ∨ k = n ∧ d.forHeader = true
  | _ => k = n

namespace Row

/-- The number of blocks that are open after the row. -/
def opened (n : Nat) (row : Row) : Nat := row.foldl (fun _ entry => entry.2) n

/-- The numbers go on as the tokens say. -/
def Legal : Depth → Nat → Row → Prop
  | _, _, [] => True
  | d, n, (lexeme, k) :: row => d.Moves n lexeme.token k ∧ Legal (d.step lexeme.token) k row

/-- The `JUSQU'A` that close a block while, for the check, the first line of a `POUR` is open. -/
def stranded : Depth → Nat → Row → Nat
  | _, _, [] => 0
  | d, n, (lexeme, k) :: row =>
    (if d.forHeader = true ∧ lexeme.token = .keyword .jusqua ∧ k < n then 1 else 0) +
      stranded (d.step lexeme.token) k row

section Append
variable {d : Depth} {n : Nat} {row row' : Row}

@[simp] theorem opened_cons {entry : Lexeme × Nat} :
    opened n (entry :: row) = opened entry.2 row := rfl

@[simp] theorem opened_append : opened n (row ++ row') = opened (opened n row) row' :=
  List.foldl_append ..

theorem legal_append : Legal d n (row ++ row') ↔
    Legal d n row ∧ Legal (d.after row.lexemes) (opened n row) row' := by
  induction row generalizing d n with
  | nil => simp [Legal, opened]
  | cons entry row ih =>
    rw [List.cons_append, Legal, Legal, ih, and_assoc]
    rfl

theorem stranded_append : stranded d n (row ++ row') =
    stranded d n row + stranded (d.after row.lexemes) (opened n row) row' := by
  induction row generalizing d n with
  | nil => simp [stranded, opened]
  | cons entry row ih =>
    rw [List.cons_append, stranded, stranded, ih, Nat.add_assoc]
    rfl

end Append

end Row

/-! ## Counting -/

namespace Depth
variable {d : Depth} {n k extra : Nat}

theorem blocks_jusqua_step (h : d.Moves n (.keyword .jusqua) k) (hd : d.blocks = n + extra) :
    (d.step (.keyword .jusqua)).blocks =
      k + (extra + if d.forHeader = true ∧ k < n then 1 else 0) := by
  have hmoves : n = k + 1 ∨ k = n ∧ d.forHeader = true := h
  by_cases hheader : d.forHeader = true
  · have hstep : (d.step (.keyword .jusqua)).blocks = d.blocks := by
      simp only [step, structureStep, hheader, if_true]
    simp only [hstep, hd, hheader, true_and]
    split <;> omega
  · have hstep : (d.step (.keyword .jusqua)).blocks = d.blocks - 1 := by
      simp only [step, structureStep, hheader, if_false, Bool.false_eq_true]
    have hclosed : n = k + 1 := hmoves.resolve_right fun hopen => hheader hopen.2
    rw [hstep, hd, if_neg fun hboth => hheader hboth.1]
    omega

theorem blocks_step {token : Token} (h : d.Moves n token k) (hd : d.blocks = n + extra) :
    (d.step token).blocks =
      k + (extra + if d.forHeader = true ∧ token = .keyword .jusqua ∧ k < n then 1 else 0) := by
  by_cases hjusqua : token = .keyword .jusqua
  · subst hjusqua
    simpa using blocks_jusqua_step h hd
  · have hcount : (d.step token).blocks = k + extra := by
      cases token with
      | keyword word =>
        cases word <;> first
          | exact absurd rfl hjusqua
          | (simp only [Moves] at h
             simp only [step, structureStep]
             omega)
      | punct mark =>
        have hsame : k = n := h
        cases mark <;> simp [step, structureStep, hd, hsame]
      | literal | type | op | ident | newline =>
        have hsame : k = n := h
        simp [step, structureStep, hd, hsame]
    simp [hjusqua, hcount]

end Depth

/-- Wherever the check stands in a legal row, it has counted the blocks that are open and those that
were closed without it. -/
theorem Row.Legal.blocks {d : Depth} {n extra : Nat} {row : Row} (h : row.Legal d n)
    (hd : d.blocks = n + extra) :
    (d.after row.lexemes).blocks = row.opened n + (extra + row.stranded d n) := by
  induction row generalizing d n extra with
  | nil => simpa [opened, stranded] using hd
  | cons entry row ih =>
    obtain ⟨hmoves, hrest⟩ := h
    rw [lexemes_cons, Depth.after_cons, ih hrest (Depth.blocks_step hmoves hd), stranded,
      Nat.add_assoc]
    rfl

/-! ## Rows of programs -/

namespace Row

/-- A row is legal from `n` open blocks on, it ends with `k` of them, and its parentheses are
balanced. -/
structure Runs (d : Depth) (n : Nat) (row : Row) (k : Nat) : Prop where
  legal : row.Legal d n
  opened : row.opened n = k
  parens : (d.after row.lexemes).parens = d.parens

variable {d : Depth} {n k j : Nat} {row row' : Row}

theorem Runs.append (h : Runs d n row k) (h' : Runs (d.after row.lexemes) k row' j) :
    Runs d n (row ++ row') j where
  legal := legal_append.2 ⟨h.legal, h.opened.symm ▸ h'.legal⟩
  opened := by rw [opened_append, h.opened, h'.opened]
  parens := by rw [lexemes_append, Depth.after_append, h'.parens, h.parens]

theorem Runs.level_append {ls rs : List Lexeme} (h : Runs d n (level n ls) n)
    (h' : Runs (d.after ls) n (level n rs) n) : Runs d n (level n (ls ++ rs)) n := by
  rw [Row.level_append]
  refine h.append ?_
  rwa [lexemes_level]

theorem runs_nil : Runs d n [] n := ⟨trivial, rfl, rfl⟩

theorem Runs.cons {lexeme : Lexeme} (hmoves : d.Moves n lexeme.token k)
    (hparens : (d.step lexeme.token).parens = d.parens)
    (h : Runs (d.step lexeme.token) k row j) : Runs d n ((lexeme, k) :: row) j :=
  ⟨⟨hmoves, h.legal⟩, h.opened, h.parens.trans hparens⟩

end Row

section Tokens
variable {d : Depth} {n : Nat} {token : Token}

theorem Depth.step_inline (h : token.isInline = true) :
    d.Moves n token n ∧ (d.step token).parens = d.parens ∧
      (d.step token).forHeader = d.forHeader := by
  cases token with
  | keyword word => cases word <;> first | exact ⟨rfl, rfl, rfl⟩ | cases h
  | punct mark => cases mark <;> first | exact ⟨rfl, rfl, rfl⟩ | cases h
  | newline => cases h
  | literal | type | op | ident => exact ⟨rfl, rfl, rfl⟩

theorem Depth.step_separator (h : token.isSeparator = true) :
    d.Moves n token n ∧ (d.step token).parens = d.parens := by
  cases token with
  | punct mark => cases mark <;> first | exact ⟨rfl, rfl⟩ | cases h
  | newline => exact ⟨rfl, rfl⟩
  | keyword | literal | type | op | ident => cases h

end Tokens

theorem Flat.runs {ls : List Lexeme} (h : Flat ls) (d : Depth) (n : Nat) :
    (level n ls).Runs d n n ∧ (d.after ls).forHeader = d.forHeader := by
  induction h generalizing d with
  | nil => exact ⟨Row.runs_nil, rfl⟩
  | token htoken =>
    obtain ⟨hmoves, hparens, hheader⟩ := d.step_inline (n := n) htoken
    exact ⟨Row.runs_nil.cons hmoves hparens, hheader⟩
  | @group ls opening closing _ ih =>
    obtain ⟨hinner, hheader⟩ := ih (d.step (.punct .lparen))
    rw [Row.level_cons, Row.level_append]
    refine ⟨⟨⟨rfl, Row.legal_append.2 ⟨hinner.legal, ?_⟩⟩, ?_, ?_⟩, ?_⟩
    · rw [hinner.opened]
      exact ⟨rfl, trivial⟩
    · rw [Row.opened_cons, Row.opened_append, hinner.opened]
      rfl
    · rw [Row.lexemes_cons, Row.lexemes_append, Depth.after_cons, Depth.after_append]
      change ((d.step (.punct .lparen)).after (level n ls).lexemes).parens - 1 = d.parens
      rw [hinner.parens]
      rfl
    · rw [Depth.after_cons, Depth.after_append]
      exact hheader
  | @append ls rs _ _ ih ih' =>
    obtain ⟨hfirst, hheader⟩ := ih d
    obtain ⟨hsecond, hheader'⟩ := ih' (d.after ls)
    rw [Depth.after_append]
    exact ⟨hfirst.level_append hsecond, hheader'.trans hheader⟩

theorem Row.runs_token {d : Depth} {n k : Nat} {lexeme : Lexeme}
    (hmoves : d.Moves n lexeme.token k) (hparens : (d.step lexeme.token).parens = d.parens) :
    Row.Runs d n [(lexeme, k)] k :=
  Row.runs_nil.cons hmoves hparens

theorem Depth.parens_step_jusqua {d : Depth} :
    (d.step (.keyword .jusqua)).parens = d.parens := by
  simp only [step, structureStep]
  split <;> rfl

theorem Optional.runs_faire {ls : List Lexeme} (h : Optional .faire ls) (d : Depth) (n : Nat) :
    (level n ls).Runs d n n := by
  cases h with
  | absent => exact Row.runs_nil
  | written span => exact Row.runs_token rfl rfl

/-- In the first line of a `POUR` the check knows that `JUSQU'A` may be a part of it. -/
theorem ForHeader.runs {ls : List Lexeme} (h : ForHeader ls) (d : Depth) (n : Nat)
    (hheader : d.forHeader = true) : (level n ls).Runs d n n := by
  obtain @⟨before, after, faire, until_, hbefore, huntil, hafter, hfaire⟩ := h
  obtain ⟨hfront, hkept⟩ := hbefore.runs d n
  have hmoves : (d.after before).Moves n until_.token n ∧
      ((d.after before).step until_.token).parens = (d.after before).parens := by
    rcases huntil with hword | hword <;> rw [hword]
    · exact ⟨rfl, rfl⟩
    -- The bound is reached with the flag of `POUR`, since flat tokens do not change it.
    · exact ⟨.inr ⟨rfl, hkept.trans hheader⟩, Depth.parens_step_jusqua⟩
  refine hfront.level_append (.cons hmoves.1 hmoves.2 ?_)
  exact .level_append (hafter.runs _ n).1 (hfaire.runs_faire _ n)

mutual

theorem StatementRow.runs {n : Nat} {statement : Statement} {row : Row} (d : Depth) :
    StatementRow n statement row → row.Runs d n n
  | .simple _ hls => (hls.1.runs d n).1
  | .branch _ _ hhead hblock =>
    .cons rfl rfl (.append (.append (hhead.runs _ _).1 (hblock.runs _)) (Row.runs_token rfl rfl))
  | .branchElse _ _ _ hhead hthen helse =>
    .cons rfl rfl (.append
      (.append (hhead.runs _ _).1 (.append (hthen.runs _) (.cons rfl rfl (helse.runs _))))
      (Row.runs_token rfl rfl))
  -- The check sets its flag at `POUR`, so that the header starts with the flag.
  | .forLoop _ _ hhead hbody =>
    .cons rfl rfl (.append (.append (hhead.runs _ _ rfl) (hbody.runs _)) (Row.runs_token rfl rfl))
  | .whileLoop _ _ hhead hfaire hbody =>
    .cons rfl rfl (.append
      (.append (.level_append (hhead.runs _ _).1 (hfaire.runs_faire _ _)) (hbody.runs _))
      (Row.runs_token rfl rfl))
  | .repeatLoop _ _ hbody htest =>
    .cons rfl rfl (.append (hbody.runs _)
      (.cons (.inl rfl) Depth.parens_step_jusqua (htest.runs _ _).1))

theorem BlockRow.runs {n : Nat} {block : List Statement} {row : Row} (d : Depth) :
    BlockRow n block row → row.Runs d n n
  | .nil => Row.runs_nil
  | .separator hseparator hrest =>
    have hstep := Depth.step_separator hseparator
    .cons hstep.1 hstep.2 (hrest.runs _)
  | .cons hfirst hrest => (hfirst.runs d).append (hrest.runs _)

end

theorem Loose.runs {ls : List Lexeme} (h : Loose ls) (d : Depth) (n : Nat) :
    (level n ls).Runs d n n := by
  induction h generalizing d with
  | flat hls => exact (hls.runs d n).1
  | separator hseparator =>
    obtain ⟨hmoves, hparens⟩ := Depth.step_separator (d := d) (n := n) hseparator
    exact Row.runs_token hmoves hparens
  | append _ _ ih ih' => exact (ih _).level_append (ih' _)

theorem ItemRow.runs {item : Item} {row : Row} (h : ItemRow item row) (d : Depth) :
    row.Runs d 0 0 := by
  cases h with
  | constants hls => exact hls.runs d 0
  | vars hls => exact hls.runs d 0
  | routine fin hhead hbody =>
    exact ((hhead.runs _ _).append (hbody.runs _)).append (Row.runs_token rfl rfl)
  | statements hblock => exact hblock.runs d

theorem ItemsRow.runs {items : List Item} {row : Row} (h : ItemsRow items row) (d : Depth) :
    row.Runs d 0 0 := by
  induction h generalizing d with
  | nil => exact Row.runs_nil
  | loose hls _ ih => exact (hls.runs _ _).append (ih _)
  | cons hitem _ ih => exact (hitem.runs _).append (ih _)

theorem ProgramRow.runs {program : Program} {row : Row} (h : ProgramRow program row) (d : Depth) :
    row.Runs d 0 0 := by
  obtain ⟨_, _, -, hitems⟩ := h
  exact hitems.runs d

end Pseudocode
