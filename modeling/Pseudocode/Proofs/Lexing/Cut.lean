import Pseudocode.Proofs.Lexing.Form
import Pseudocode.Proofs.Lexing.Position

/-! A source is cut into pieces that follow each other without a gap. Each of them is the longest
text at its place that stands for anything, and knows the place where it stands. The cut goes on to
the end of the source, or to the first place where nothing can be read. -/

namespace Pseudocode
set_option autoImplicit false

/-! ## The longest reading -/

theorem longest_eq_none {rs : List Reading} (h : longest rs = none) : rs = [] := by
  cases rs with
  | nil => rfl
  | cons r rs =>
    simp only [longest] at h
    split at h
    · cases h
    · split at h <;> cases h

/-- The longest reading is the first one of its length. -/
theorem longest_spec {rs : List Reading} {r : Reading} (h : longest rs = some r) :
    ∃ before after, rs = before ++ r :: after ∧ (∀ s ∈ before, s.length < r.length) ∧
      ∀ s ∈ after, s.length ≤ r.length := by
  induction rs generalizing r with
  | nil => cases h
  | cons first rs ih =>
    simp only [longest] at h
    split at h
    case h_1 hnone =>
      obtain rfl := Option.some.inj h
      exact ⟨[], rs, rfl, by simp, by simp [longest_eq_none hnone]⟩
    case h_2 s hsome =>
      obtain ⟨before, after, rfl, hbefore, hafter⟩ := ih hsome
      split at h
      all_goals obtain rfl := Option.some.inj h
      case isTrue hless =>
        exact ⟨first :: before, after, rfl, List.forall_mem_cons.mpr ⟨hless, hbefore⟩, hafter⟩
      case isFalse hless =>
        refine ⟨[], before ++ s :: after, rfl, by simp, ?_⟩
        simp only [List.mem_append, List.mem_cons]
        rintro t (ht | rfl | ht)
        · have hlast := hbefore t ht
          omega
        · omega
        · have hlast := hafter t ht
          omega

theorem longest_mem {rs : List Reading} {r : Reading} (h : longest rs = some r) : r ∈ rs := by
  obtain ⟨before, after, rfl, -, -⟩ := longest_spec h
  simp

theorem length_le_longest {rs : List Reading} {r s : Reading} (h : longest rs = some r)
    (hs : s ∈ rs) : s.length ≤ r.length := by
  obtain ⟨before, after, rfl, hbefore, hafter⟩ := longest_spec h
  simp only [List.mem_append, List.mem_cons] at hs
  obtain hs | rfl | hs := hs
  · exact (hbefore s hs).le
  · exact Nat.le_refl _
  · exact hafter s hs

/-- Whether `text`, which `rest` follows, stands for `m`: nothing longer that begins there stands
for anything, and a fixed spelling is not read as a name. -/
structure Foremost (text : List Char) (m : Meaning) (rest : List Char) : Prop where
  denotes : Denotes text m
  longest : ∀ {other : List Char} {n : Meaning}, other <+: text ++ rest → Denotes other n →
    other.length ≤ text.length
  fixed : ∀ s ∈ vocabulary, text.map s.seen = s.text → m = .token s.token

/-- Fixed spellings come first among the readings. -/
theorem fixed_of_longest {text rest : List Char} {r : Reading}
    (h : longest (readings (text ++ rest)) = some r) (hlength : r.length = text.length)
    {s : Spelling} (hs : s ∈ vocabulary) (htext : text.map s.seen = s.text) :
    r.meaning = .token s.token := by
  have hmem : ⟨text.length, .token s.token⟩ ∈ vocabulary.filterMap (·.reading? (text ++ rest)) :=
    List.mem_filterMap.mpr ⟨s, hs, s.reading?_append htext rest⟩
  obtain ⟨before, after, heq, hbefore, -⟩ := longest_spec h
  have hlonger : ¬vocabulary.filterMap (·.reading? (text ++ rest)) <+: before := fun hpre => by
    have hshort := hbefore _ (hpre.subset hmem)
    simp only at hshort
    omega
  obtain ⟨others, rfl, -⟩ | ⟨fixed, hfixed, hothers⟩ := List.append_eq_append_iff.mp heq
  · exact absurd (List.prefix_append ..) hlonger
  · cases fixed with
    | nil => exact absurd (by simp [hfixed]) hlonger
    | cons first fixed =>
      obtain rfl : r = first := (List.cons.inj hothers).1
      have hr : r ∈ vocabulary.filterMap (·.reading? (text ++ rest)) := by simp [hfixed]
      obtain ⟨t, ht, hread⟩ := List.mem_filterMap.mp hr
      obtain ⟨text', rest', hsplit, htext', rfl⟩ := Spelling.reading?_eq_some hread
      obtain ⟨rfl, rfl⟩ := List.append_inj hsplit hlength.symm
      rw [spelling_unique hs ht htext htext']

theorem foremost_of_longest {cs : List Char} {r : Reading} (h : longest (readings cs) = some r) :
    ∃ text rest, cs = text ++ rest ∧ r.length = text.length ∧ Foremost text r.meaning rest := by
  obtain ⟨text, rest, rfl, hlength, hdenotes⟩ := of_mem_readings (longest_mem h)
  refine ⟨text, rest, rfl, hlength, hdenotes, ?_, fun s => fixed_of_longest h hlength⟩
  rintro other n ⟨others, hother⟩ hn
  obtain ⟨s, hs, hlonger⟩ := hn.exists_reading others
  rw [hother] at hs
  have hle := length_le_longest h hs
  omega

theorem not_denotes_of_longest {cs text : List Char} {m : Meaning}
    (h : longest (readings cs) = none) (htext : text <+: cs) : ¬Denotes text m := by
  intro hm
  obtain ⟨rest, rfl⟩ := htext
  obtain ⟨r, hr, -⟩ := hm.exists_reading rest
  rw [longest_eq_none h] at hr
  cases hr

/-! ## Cuts -/

/-- What a piece stands for. -/
def Piece.meaning (p : Piece) : Meaning :=
  match p.token? with
  | some token => .token token
  | none => .skipped

/-- Whether a piece stands where it says, between `before` and `after`. -/
structure Piece.Between (before : List Char) (p : Piece) (after : List Char) : Prop where
  foremost : Foremost p.text p.meaning after
  span : p.span = Span.after before

/-- `Cut before pieces text rest`: the pieces, one after the other, are the front of `text` up to
`rest`, where `before` is what stands before them. -/
inductive Cut : List Char → List Piece → List Char → List Char → Prop where
  | done {before rest : List Char} : Cut before [] rest rest
  | piece {before after rest : List Char} {p : Piece} {pieces : List Piece} :
      p.Between before after → Cut (before ++ p.text) pieces after rest →
      Cut before (p :: pieces) (p.text ++ after) rest

/-- Whether nothing can be read at the front of a text, or only a literal without a value. -/
inductive Unreadable : List Char → LexCause → Prop where
  | nothing {c : Char} {cs : List Char} :
      (∀ {text : List Char} {m : Meaning}, text <+: c :: cs → ¬Denotes text m) →
      Unreadable (c :: cs) (causeAt c)
  | refused {text rest : List Char} {cause : LexCause} : Foremost text (.refused cause) rest →
      Unreadable (text ++ rest) cause

theorem Cut.concatenation {before text rest : List Char} {pieces : List Piece}
    (h : Cut before pieces text rest) : text = pieces.flatMap Piece.text ++ rest := by
  induction h with
  | done => rfl
  | piece _ _ ih => rw [ih, List.flatMap_cons, List.append_assoc]

/-- Every piece of a cut stands between the texts of the others. -/
theorem Cut.between {before text rest : List Char} {pieces : List Piece}
    (h : Cut before pieces text rest) {p : Piece} (hp : p ∈ pieces) :
    ∃ earlier after, p.Between (before ++ earlier) after ∧ text = earlier ++ p.text ++ after := by
  induction h with
  | done => cases hp
  | @piece before after rest first pieces hfirst _ ih =>
    obtain rfl | hp := List.mem_cons.mp hp
    · exact ⟨[], after, by simpa using hfirst, rfl⟩
    · obtain ⟨earlier, after, hbetween, rfl⟩ := ih hp
      exact ⟨first.text ++ earlier, after, by simpa using hbetween, by simp⟩

theorem Cut.increasing {before text rest : List Char} {pieces : List Piece}
    (h : Cut before pieces text rest) : pieces.Pairwise fun p q => p.span.Before q.span := by
  induction h with
  | done => exact .nil
  | @piece before after rest p pieces hp hpieces ih =>
    refine .cons (fun q hq => ?_) ih
    obtain ⟨earlier, after, hbetween, -⟩ := hpieces.between hq
    have hpassed : p.text ++ earlier ≠ [] := by simp [hp.foremost.denotes.ne_nil]
    rw [hp.span, hbetween.span, List.append_assoc]
    exact Span.after_before_after before hpassed

/-! ## The pieces of a text -/

/-- The pieces of a text that starts at `span`, after `skip` characters that belong to the piece
before it. The place is counted on with every character. -/
def piecesFrom (span : Span) : Nat → List Char → Except LexError (List Piece)
  | _, [] => .ok []
  | skip + 1, c :: cs => piecesFrom (span.next c) skip cs
  | 0, c :: cs =>
    match longest (readings (c :: cs)) with
    | none => .error ⟨causeAt c, span⟩
    | some ⟨_, .refused cause⟩ => .error ⟨cause, span⟩
    | some ⟨length, .skipped⟩ => do
      let rest ← piecesFrom (span.next c) (length - 1) cs
      return ⟨(c :: cs).take length, none, span⟩ :: rest
    | some ⟨length, .token token⟩ => do
      let rest ← piecesFrom (span.next c) (length - 1) cs
      return ⟨(c :: cs).take length, some token, span⟩ :: rest

theorem piecesFrom_append (span : Span) (text rest : List Char) :
    piecesFrom span text.length (text ++ rest) = piecesFrom (text.foldl Span.next span) 0 rest := by
  induction text generalizing span with
  | nil => rfl
  | cons c text ih => exact ih (span.next c)

theorem piecesFrom_piece {p : Piece} {rest : List Char} (hne : p.text ≠ [])
    (hlongest : longest (readings (p.text ++ rest)) = some ⟨p.text.length, p.meaning⟩) :
    piecesFrom p.span 0 (p.text ++ rest) =
      (piecesFrom (p.text.foldl Span.next p.span) 0 rest).map fun pieces => p :: pieces := by
  obtain ⟨text, token?, span⟩ := p
  obtain ⟨c, text, rfl⟩ := List.exists_cons_of_ne_nil hne
  have hskip := piecesFrom_append (span.next c) text rest
  simp only [List.cons_append] at hlongest ⊢
  cases token?
  all_goals simp only [Piece.meaning, List.length_cons] at hlongest
  all_goals simp only [piecesFrom, hlongest, Nat.add_sub_cancel, hskip]
  all_goals rw [List.take_succ_cons, List.take_left, List.foldl_cons]
  all_goals cases piecesFrom (text.foldl Span.next (span.next c)) 0 rest <;> rfl

/-- Whether a text that follows `before` was cut as far as it can be read. -/
def CutsAll (before text : List Char) : Except LexError (List Piece) → Prop
  | .ok pieces => Cut before pieces text []
  | .error e => ∃ pieces rest, Cut before pieces text rest ∧
      e.span = Span.after (before ++ pieces.flatMap Piece.text) ∧ Unreadable rest e.cause

theorem CutsAll.piece {before rest : List Char} {p : Piece}
    {result : Except LexError (List Piece)} (hp : p.Between before rest)
    (hrest : CutsAll (before ++ p.text) rest result) :
    CutsAll before (p.text ++ rest) (result.map fun pieces => p :: pieces) := by
  cases result with
  | ok pieces => exact Cut.piece hp hrest
  | error e =>
    obtain ⟨pieces, left, hcut, hspan, hleft⟩ := hrest
    refine ⟨p :: pieces, left, .piece hp hcut, ?_, hleft⟩
    rw [hspan, List.flatMap_cons, List.append_assoc]

theorem piecesFrom_cutsAll (before text : List Char) :
    CutsAll before text (piecesFrom (Span.after before) 0 text) := by
  induction hlength : text.length using Nat.strong_induction_on generalizing before text with
  | _ length ih =>
    subst hlength
    cases hlongest : longest (readings text) with
    | none =>
      cases text with
      | nil => exact .done
      | cons c text =>
        simp only [piecesFrom, hlongest]
        exact ⟨[], c :: text, .done, by simp, .nothing (not_denotes_of_longest hlongest)⟩
    | some r =>
      obtain ⟨length, meaning⟩ := r
      obtain ⟨text, rest, rfl, rfl, hforemost⟩ := foremost_of_longest hlongest
      have hne := hforemost.denotes.ne_nil
      -- a piece of either kind leaves a shorter text
      have hpiece : ∀ p : Piece, p.text = text → p.meaning = meaning →
          p.span = Span.after before →
          CutsAll before (text ++ rest) (piecesFrom (Span.after before) 0 (text ++ rest)) := by
        rintro p rfl rfl hspan
        have hpos := List.length_pos_iff.mpr hne
        have hrest := ih rest.length (by simp; omega) (before ++ p.text) rest rfl
        rw [← Span.foldl_next, ← hspan] at hrest
        rw [← hspan, piecesFrom_piece hne hlongest]
        exact .piece ⟨hforemost, hspan⟩ hrest
      cases meaning with
      | token token => exact hpiece ⟨text, some token, Span.after before⟩ rfl rfl rfl
      | skipped => exact hpiece ⟨text, none, Span.after before⟩ rfl rfl rfl
      | refused cause =>
        obtain ⟨c, text, rfl⟩ := List.exists_cons_of_ne_nil hne
        simp only [List.cons_append] at hlongest ⊢
        simp only [piecesFrom, hlongest]
        exact ⟨[], c :: text ++ rest, .done, by simp, .refused hforemost⟩

end Pseudocode
