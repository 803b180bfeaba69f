import Pseudocode.Proofs.Grammar.ExpressionRoundTrip

/-! # Reading statements back

A statement that is written down is read back before the end of its line, in all the ways it may be
written, and so is a block before one of the tokens that close it. The argument is by the depth that
the parser is given: as much as there are tokens is enough.

* `WrittenBlock.reads`: a block, if its statements are read back.
* `Written.reads`, `WrittenBlock.reads_block`: statements and blocks. -/

namespace Pseudocode
set_option autoImplicit false
open Pseudocode.Parser

/-! ## Blocks -/

/-- Whether a statement may start with the token. -/
def Token.startsStatement : Token → Bool
  | .ident _ | .keyword .lire | .keyword .ecrire | .keyword .si | .keyword .pour
  | .keyword .tantQue | .keyword .repeter | .keyword .retourner => true
  | _ => false

theorem Written.starts {statement : Statement} {tokens : List Token} (h : Written statement tokens) :
    ∃ first rest, tokens = first :: rest ∧ first.startsStatement = true := by
  cases h <;> exact ⟨_, _, rfl, rfl⟩

theorem Token.not_separator_of_startsStatement {token : Token} (h : token.startsStatement = true) :
    token.isSeparator = false := by
  unfold Token.isSeparator
  split
  · cases h
  · cases h
  · rfl

/-- A line ends before the token that follows. -/
abbrev endsLine (next : Option Token) : Prop := next = some .newline

/-- One of the tokens follows. -/
def ClosedBy (closing : List Token) (next : Option Token) : Prop := ∃ token ∈ closing, next = some token

/-- None of the tokens could be taken for a part of the block that they close. -/
def Closing (closing : List Token) : Prop :=
  ∀ token ∈ closing, token.isSeparator = false ∧ token.startsStatement = false

instance (closing : List Token) : Decidable (Closing closing) :=
  inferInstanceAs (Decidable (∀ token ∈ closing, _ ∧ _))

theorem WrittenBlock.head {block : List Statement} {tokens : List Token}
    (h : WrittenBlock block tokens) : ∃ rest, tokens = .newline :: rest := by
  cases h <;> exact ⟨_, rfl⟩

theorem WrittenBlock.length_lt {block : List Statement} {tokens : List Token} :
    WrittenBlock block tokens → block.length < tokens.length
  | .nil => Nat.one_pos
  | .cons hfirst hrest => by
    have hlength := hrest.length_lt
    simp only [List.length_cons, List.length_append]
    omega

section Block
variable {statement : Parser Statement} {closing : List Token}

theorem WrittenBlock.reads (hclosing : Closing closing) :
    ∀ {block : List Statement} {tokens : List Token}, WrittenBlock block tokens →
      ∀ bound, block.length < bound →
      (∀ s ∈ block, ∀ ts, Written s ts → ts.length ≤ tokens.length →
        Reads statement ts endsLine (·.unlined = s.unlined)) →
      Reads (blockWithin statement closing bound) tokens (ClosedBy closing)
        (unlinedBlock · = unlinedBlock block)
  | _, _, .nil, bound + 1, _, _ => by
    refine reads_skip_newline (reads_skip ?_ (reads_peek_nil ?_))
    · rintro _ ⟨token, htoken, rfl⟩
      exact (hclosing token htoken).1
    · rintro found ⟨token, htoken, hfound⟩
      obtain ⟨⟨_, span⟩, rfl, rfl⟩ := Option.map_eq_some_iff.1 hfound
      simp only [List.contains_iff_mem.2 htoken, if_true]
      exact reads_pure rfl
  | first :: rest, _, .cons hfirst hrest, bound + 1, hbound, hstatement => by
    obtain ⟨head, tail, rfl, hhead⟩ := hfirst.starts
    obtain ⟨_, rfl⟩ := hrest.head
    have hopen : closing.contains head = false := by
      rw [List.contains_eq_mem, decide_eq_false_iff_not]
      intro hmem
      rw [(hclosing head hmem).2] at hhead
      cases hhead
    refine reads_skip_newline (reads_skip ?_ (reads_peek fun span => ?_))
    · intro next _
      exact Token.not_separator_of_startsStatement hhead
    simp only [hopen, Bool.false_eq_true, if_false]
    simp only [List.length_cons, List.length_append] at hstatement
    have hreads := hstatement first List.mem_cons_self _ hfirst (by rw [List.length_cons]; omega)
    refine hreads.bind (fun _ _ => rfl) fun first' hfirst' => ?_
    have hmore := WrittenBlock.reads hclosing hrest bound (Nat.lt_of_succ_lt_succ hbound)
      fun s hs ts hts hlength => hstatement s (List.mem_cons_of_mem _ hs) ts hts (by
        rw [List.length_cons] at hlength
        omega)
    refine hmore.bind_nil (fun _ h => h) fun rest' hrest' => reads_pure ?_
    rw [unlinedBlock, hfirst', hrest', unlinedBlock]

end Block

/-! ## Statements without blocks -/

section Simple
variable {line : Nat}

theorem ends_of_endsLine {next : Option Token} (h : endsLine next) : endsExpression next = true := by
  rw [h]
  rfl

theorem reads_assign (name : String) (value : Expr) :
    Reads (assignOrCall name line) (.punct .assign :: value.tokens) endsLine
      (·.unlined = .assign name value.unlined 0) := by
  refine reads_next fun span => ?_
  refine (reads_expression value).bind_nil (fun _ => ends_of_endsLine) fun value' hvalue => ?_
  exact reads_pure (by rw [Statement.unlined, hvalue])

theorem reads_call (name : String) (arguments : List Expr) :
    Reads (assignOrCall name line)
      (.punct .lparen :: (commas (arguments.map Expr.tokens) ++ [.punct .rparen])) endsLine
      (·.unlined = .call name (arguments.map Expr.unlined) 0) := by
  refine reads_next fun span => ?_
  refine (reads_arguments arguments _).bind_nil (fun _ h => h) fun arguments' harguments => ?_
  exact reads_pure (by rw [Statement.unlined, harguments])

theorem reads_write (values : List Expr) :
    Reads (writeValues line)
      (.punct .lparen :: (commas (values.map Expr.tokens) ++ [.punct .rparen])) endsLine
      (·.unlined = .write (values.map Expr.unlined) 0) := by
  refine reads_accept ?_
  refine (reads_arguments values _).bind_nil (fun _ h => h) fun values' hvalues => ?_
  exact reads_pure (by rw [Statement.unlined, hvalues])

theorem reads_names (names : List String) (follow : Option Token → Prop) :
    Reads (closedList identifier)
      (commas (names.map fun name => [.ident name]) ++ [.punct .rparen]) follow
      (·.map id = names.map id) := by
  refine reads_closedList ?_ ?_ (fun name _ => ⟨_, _, rfl, by simp⟩) fun name _ =>
    reads_identifier name
  · trivial
  · trivial

theorem reads_read {targets : List String} (htargets : targets ≠ []) :
    Reads (readTargets line) (.punct .lparen ::
      (commas (targets.map fun name => [.ident name]) ++ [.punct .rparen])) endsLine
      (·.unlined = .read targets 0) := by
  refine reads_accept ?_
  refine (reads_names targets _).bind_nil (fun _ h => h) fun targets' h => ?_
  rw [List.map_id, List.map_id] at h
  subst h
  cases targets' with
  | nil => exact absurd rfl htargets
  | cons target targets => exact reads_pure rfl

theorem reads_ret {routine : Option RoutineKind} {value : Option Expr} (h : Returns routine value) :
    Reads (returnValue routine line) ((value.map Expr.tokens).getD []) endsLine
      (·.unlined = .ret (value.map Expr.unlined) 0) := by
  match routine, value, h with
  | some .procedure, none, _ =>
    refine reads_peek_nil fun found hfound => ?_
    obtain ⟨⟨_, span⟩, rfl, rfl⟩ := Option.map_eq_some_iff.1 hfound
    exact reads_pure rfl
  | some .function, some value, _ =>
    obtain ⟨first, rest, htokens, hfirst⟩ := value.tokens_starts
    have hvalue := reads_expression value
    simp only [Option.map_some, Option.getD_some, htokens] at hvalue ⊢
    refine reads_peek fun span => ?_
    simp only [Option.any_some, hfirst]
    refine hvalue.bind_nil (fun _ => ends_of_endsLine) fun value' hvalue' => reads_pure ?_
    rw [Statement.unlined, Option.map_some, hvalue']

end Simple

/-! ## Statements with blocks -/

section Compound
variable {block : List Token → Parser (List Statement)} {line : Nat} {body : List Statement}
  {bodyTokens : List Token}

/-- The parser of blocks reads the block back. -/
def ReadsBlock (block : List Token → Parser (List Statement)) (closing : List Token)
    (body : List Statement) (tokens : List Token) : Prop :=
  Reads (block closing) tokens (ClosedBy closing) (unlinedBlock · = unlinedBlock body)

theorem reads_branch {thenBlock : List Statement} {thenTokens : List Token} (condition : Expr)
    (hthen : ReadsBlock block [.keyword .sinon, .keyword .finSi] thenBlock thenTokens) :
    Reads (branchRest block line)
      (condition.tokens ++ .keyword .alors :: (thenTokens ++ [.keyword .finSi])) endsLine
      (·.unlined = .branch condition.unlined (unlinedBlock thenBlock) none 0) := by
  refine (reads_expression condition).bind (fun _ _ => rfl) fun condition' hcondition => ?_
  refine reads_expect (hthen.bind (fun _ _ => ⟨.keyword .finSi, by simp, rfl⟩) fun then' hthen' => ?_)
  refine reads_decline (fun _ _ => by simp) (reads_expect (reads_pure ?_))
  rw [Statement.unlined, hcondition, hthen', unlinedElse]

theorem reads_branchElse {thenBlock elseBlock : List Statement}
    {thenTokens elseTokens : List Token} (condition : Expr)
    (hthen : ReadsBlock block [.keyword .sinon, .keyword .finSi] thenBlock thenTokens)
    (helse : ReadsBlock block [.keyword .finSi] elseBlock elseTokens) :
    Reads (branchRest block line)
      (condition.tokens ++ .keyword .alors :: (thenTokens ++ .keyword .sinon ::
        (elseTokens ++ [.keyword .finSi]))) endsLine
      (·.unlined = .branch condition.unlined (unlinedBlock thenBlock)
        (some (unlinedBlock elseBlock)) 0) := by
  refine (reads_expression condition).bind (fun _ _ => rfl) fun condition' hcondition => ?_
  refine reads_expect (hthen.bind (fun _ _ => ⟨.keyword .sinon, by simp, rfl⟩) fun then' hthen' => ?_)
  refine reads_accept (helse.bind (fun _ _ => ⟨.keyword .finSi, by simp, rfl⟩) fun else' helse' => ?_)
  refine reads_expect (reads_pure ?_)
  rw [Statement.unlined, hcondition, hthen', unlinedElse, helse']

theorem reads_repeat (condition : Expr) (hbody : ReadsBlock block [.keyword .jusqua] body bodyTokens) :
    Reads (repeatRest block line) (bodyTokens ++ .keyword .jusqua :: condition.tokens) endsLine
      (·.unlined = .repeatLoop (unlinedBlock body) condition.unlined 0) := by
  refine hbody.bind (fun _ _ => ⟨.keyword .jusqua, by simp, rfl⟩) fun body' hbody' => ?_
  refine reads_expect ((reads_expression condition).bind_nil (fun _ => ends_of_endsLine)
    fun condition' hcondition => reads_pure ?_)
  rw [Statement.unlined, hbody', hcondition]

/-- The `FAIRE` of a first line may be left out. -/
theorem reads_faire {β : Type} {f : Bool → Parser β} {faire tokens : List Token}
    {follow : Option Token → Prop} {good : β → Prop} (hfaire : faire ∈ [[], [Token.keyword .faire]])
    (hnext : ∀ next, tokens.head?.or next ≠ some (.keyword .faire))
    (h : ∀ found, Reads (f found) tokens follow good) :
    Reads (accept (.keyword .faire) >>= f) (faire ++ tokens) follow good := by
  simp only [List.mem_cons, List.not_mem_nil, or_false] at hfaire
  obtain rfl | rfl := hfaire
  · exact reads_decline (fun next _ => hnext next) (h false)
  · exact reads_accept (h true)

theorem reads_while {faire : List Token} (condition : Expr)
    (hfaire : faire ∈ [[], [Token.keyword .faire]]) (hbody : WrittenBlock body bodyTokens)
    (hread : ReadsBlock block [.keyword .finTantQue] body bodyTokens) :
    Reads (whileRest block line)
      (condition.tokens ++ (faire ++ (bodyTokens ++ [.keyword .finTantQue]))) endsLine
      (·.unlined = .whileLoop condition.unlined (unlinedBlock body) 0) := by
  obtain ⟨rest, rfl⟩ := hbody.head
  refine (reads_expression condition).bind (fun _ _ => ?_) fun condition' hcondition => ?_
  · simp only [List.mem_cons, List.not_mem_nil, or_false] at hfaire
    obtain rfl | rfl := hfaire <;> rfl
  refine reads_faire hfaire (fun _ => by simp) fun _ => ?_
  refine hread.bind (fun _ _ => ⟨.keyword .finTantQue, by simp, rfl⟩) fun body' hbody' => ?_
  refine reads_expect (reads_pure ?_)
  rw [Statement.unlined, hcondition, hbody']

theorem reads_forBody {faire : List Token} {name : String} {first first' last last' : Expr}
    {step step' : Option Expr} (hfirst : first'.unlined = first.unlined)
    (hlast : last'.unlined = last.unlined) (hstep : step'.map Expr.unlined = step.map Expr.unlined)
    (hfaire : faire ∈ [[], [Token.keyword .faire]]) (hbody : WrittenBlock body bodyTokens)
    (hread : ReadsBlock block [.keyword .finPour] body bodyTokens) :
    Reads (do
        let _ ← accept (.keyword .faire)
        let body ← block [.keyword .finPour]
        expect (.keyword .finPour)
        return Statement.forLoop name first' last' step' body line)
      (faire ++ (bodyTokens ++ [.keyword .finPour])) endsLine
      (·.unlined = .forLoop name first.unlined last.unlined (step.map Expr.unlined)
        (unlinedBlock body) 0) := by
  obtain ⟨rest, rfl⟩ := hbody.head
  refine reads_faire hfaire (fun _ => by simp) fun _ => ?_
  refine hread.bind (fun _ _ => ⟨.keyword .finPour, by simp, rfl⟩) fun body' hbody' => ?_
  refine reads_expect (reads_pure ?_)
  rw [Statement.unlined, hfirst, hlast, hstep, hbody']

theorem reads_for {start stop : Token} {faire : List Token} (name : String) (first last : Expr)
    (step : Option Expr) (hstart : start ∈ [Token.keyword .de, .punct .assign])
    (hstop : stop ∈ [Token.keyword .a, .keyword .jusqua])
    (hfaire : faire ∈ [[], [Token.keyword .faire]]) (hbody : WrittenBlock body bodyTokens)
    (hread : ReadsBlock block [.keyword .finPour] body bodyTokens) :
    Reads (forRest block line)
      (.ident name :: start :: (first.tokens ++ stop :: (last.tokens ++ (stepTokens step ++
        (faire ++ (bodyTokens ++ [.keyword .finPour])))))) endsLine
      (·.unlined = .forLoop name first.unlined last.unlined (step.map Expr.unlined)
        (unlinedBlock body) 0) := by
  let after := faire ++ (bodyTokens ++ [Token.keyword .finPour])
  have hafter : ∀ next, endsExpression (after.head?.or next) = true ∧
      after.head?.or next ≠ some (.keyword .pas) := by
    intro next
    obtain ⟨rest, rfl⟩ := hbody.head
    simp only [List.mem_cons, List.not_mem_nil, or_false] at hfaire
    obtain rfl | rfl := hfaire <;> exact ⟨rfl, by simp [after]⟩
  refine (reads_identifier name).bind (fun _ _ => trivial) ?_
  rintro _ rfl
  refine reads_expectEither hstart ?_
  refine (reads_expression first).bind (fun _ _ => ?_) fun first' hfirst => ?_
  · simp only [List.mem_cons, List.not_mem_nil, or_false] at hstop
    obtain rfl | rfl := hstop <;> rfl
  refine reads_expectEither hstop ?_
  cases step with
  | none =>
    refine (reads_expression last).bind (fun next _ => (hafter next).1) fun last' hlast => ?_
    refine reads_decline (fun next _ => (hafter next).2) ?_
    rw [if_neg Bool.false_ne_true, pure_bind]
    exact reads_forBody hfirst hlast rfl hfaire hbody hread
  | some step =>
    refine (reads_expression last).bind (fun _ _ => rfl) fun last' hlast => reads_accept ?_
    have hstep : Reads (some <$> expression) step.tokens (endsExpression · = true)
        (·.map Expr.unlined = (some step).map Expr.unlined) :=
      (reads_expression step).map fun step' hstep => by rw [Option.map_some, hstep, Option.map_some]
    refine hstep.bind (fun next _ => (hafter next).1) fun step' hstep' => ?_
    exact reads_forBody hfirst hlast hstep' hfaire hbody hread

end Compound

/-! ## All statements -/

section Statements
variable {routine : Option RoutineKind}

theorem Written.reads (n : Nat) : ∀ {statement : Statement} {tokens : List Token},
    Written statement tokens → statement.Proper routine →
      (∀ inner ∈ statement.blocks, ProperBlock routine inner) → tokens.length ≤ n →
      Reads (statementWithin routine n) tokens endsLine (·.unlined = statement.unlined) := by
  induction n with
  | zero =>
    intro statement tokens hwritten _ _ hlength
    obtain ⟨first, rest, rfl, -⟩ := hwritten.starts
    cases hlength
  | succ n ih =>
    intro statement tokens hwritten hproper hblocks hlength
    -- a block inside has fewer tokens, so that one less is enough for its statements
    have hblock : ∀ {body : List Statement} {bodyTokens closing : List Token},
        WrittenBlock body bodyTokens → ProperBlock routine body → bodyTokens.length ≤ n →
        Closing closing →
        ReadsBlock (fun closing => blockWithin (statementWithin routine n) closing n) closing body
          bodyTokens := by
      intro body bodyTokens closing hbody hproper hlength hclosing
      refine hbody.reads hclosing n (Nat.lt_of_lt_of_le hbody.length_lt hlength) ?_
      intro s hs ts hts hle
      obtain ⟨hs, hinner⟩ := hproper.of_mem hs
      exact ih hts hs hinner (Nat.le_trans hle hlength)
    cases hwritten with
    | assign target value line => exact reads_peek fun _ => reads_next fun _ => reads_assign target value
    | read targets line => exact reads_peek fun _ => reads_next fun _ => reads_read hproper
    | write values line => exact reads_peek fun _ => reads_next fun _ => reads_write values
    | branch condition line hthen =>
      simp only [List.length_cons, List.length_append] at hlength
      have hthen' := hblocks _ List.mem_cons_self
      exact reads_peek fun _ => reads_next fun _ =>
        reads_branch condition (hblock hthen hthen' (by omega) (by decide))
    | branchElse condition line hthen helse =>
      simp only [List.length_cons, List.length_append] at hlength
      have hthen' := hblocks _ List.mem_cons_self
      have helse' := hblocks _ (List.mem_cons_of_mem _ List.mem_cons_self)
      exact reads_peek fun _ => reads_next fun _ =>
        reads_branchElse condition (hblock hthen hthen' (by omega) (by decide))
          (hblock helse helse' (by omega) (by decide))
    | forLoop name first last step line hstart hstop hfaire hbody =>
      simp only [List.length_cons, List.length_append] at hlength
      have hbody' := hblocks _ List.mem_cons_self
      exact reads_peek fun _ => reads_next fun _ => reads_for name first last step hstart hstop hfaire
        hbody (hblock hbody hbody' (by omega) (by decide))
    | whileLoop condition line hfaire hbody =>
      simp only [List.length_cons, List.length_append] at hlength
      have hbody' := hblocks _ List.mem_cons_self
      exact reads_peek fun _ => reads_next fun _ => reads_while condition hfaire hbody
        (hblock hbody hbody' (by omega) (by decide))
    | repeatLoop condition line hbody =>
      simp only [List.length_cons, List.length_append] at hlength
      have hbody' := hblocks _ List.mem_cons_self
      exact reads_peek fun _ => reads_next fun _ => reads_repeat condition
        (hblock hbody hbody' (by omega) (by decide))
    | call name arguments line =>
      exact reads_peek fun _ => reads_next fun _ => reads_call name arguments
    | retNone line => exact reads_peek fun _ => reads_next fun _ => reads_ret hproper
    | ret value line => exact reads_peek fun _ => reads_next fun _ => reads_ret hproper

theorem WrittenBlock.reads_block {closing : List Token} {body : List Statement}
    {bodyTokens : List Token} (hbody : WrittenBlock body bodyTokens)
    (hproper : ProperBlock routine body) (hclosing : Closing closing) :
    Reads (block routine closing) bodyTokens (ClosedBy closing)
      (unlinedBlock · = unlinedBlock body) := by
  refine reads_length fun left hleft => hbody.reads hclosing _ ?_ fun s hs ts hts _ => ?_
  · have hlength := hbody.length_lt
    omega
  · obtain ⟨hs, hinner⟩ := hproper.of_mem hs
    exact reads_length fun left' hleft' => hts.reads _ hs hinner (Nat.le_succ_of_le hleft')

end Statements

end Pseudocode
