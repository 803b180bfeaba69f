import Pseudocode.Proofs.Lexing.Cut

/-! # The place of a piece

A cut knows the line that it is on and where this line starts. Both change only where a line ends:
at a line feed that is a token, and inside a comment between two marks. They are what the text
before the cut says, so a piece has the place that is counted one character at a time.

* `Denotes.feed`: what holds a line feed.
* `LineMark.pass_after`: a mark stays that of all that is passed.
* `pieces_eq_piecesFrom`: the pieces of a source. -/

namespace Pseudocode
set_option autoImplicit false

/-! ## Texts with a line feed -/

theorem Quoted.no_feed {raw content : List Char} (h : Quoted raw content) : '\n' ∉ raw := by
  induction h with
  | nil => exact List.not_mem_nil
  | plain _ _ hfeed _ ih => simp [hfeed.symm, ih]
  | escaped hfeed _ ih => simp [hfeed.symm, ih]

/-- Only a comment between two marks and the token for the end of a line hold a line feed. -/
theorem Denotes.feed {text : List Char} {m : Meaning} (h : Denotes text m) :
    '\n' ∉ text ∧ m ≠ .token .newline ∨ text = ['\n'] ∧ m = .token .newline ∨
      m = .skipped ∧ ['/', '*'] <+: text := by
  have hdigit {digits : List Char} (hdigits : ∀ d ∈ digits, d.isDigit = true) : '\n' ∉ digits :=
    fun hfeed => absurd (hdigits _ hfeed) (by decide)
  cases h with
  | @spelling s text hs htext =>
    by_cases hfeed : '\n' ∈ s.text ∨ s.token = .newline
    · obtain ⟨hexact, hnewline, htoken⟩ := vocabulary_newline s hs hfeed
      rw [Spelling.seen_of_exact hexact, List.map_id, hnewline] at htext
      exact .inr (.inl ⟨htext, by rw [htoken]⟩)
    · obtain ⟨hspelled, htoken⟩ := not_or.1 hfeed
      refine .inl ⟨fun hmem => hspelled ?_, fun h => htoken (Meaning.token.inj h)⟩
      rw [← htext, ← s.seen_feed]
      exact List.mem_map_of_mem hmem
  | @name c rest hc hrest =>
    refine .inl ⟨?_, nofun⟩
    intro hfeed
    rcases List.mem_cons.1 hfeed with rfl | hfeed
    · exact absurd hc (by decide)
    · exact absurd (hrest _ hfeed) (by decide)
  | integer _ hdigits => exact .inl ⟨hdigit hdigits, nofun⟩
  | tooLarge _ hdigits => exact .inl ⟨hdigit hdigits, nofun⟩
  | real _ hwhole _ hfraction =>
    exact .inl ⟨by simp [hdigit hwhole, hdigit hfraction], nofun⟩
  | string hraw => exact .inl ⟨by simp [hraw.no_feed], nofun⟩
  | character _ _ hfeed => exact .inl ⟨by simp [hfeed.symm], nofun⟩
  | escapedCharacter hfeed => exact .inl ⟨by simp [hfeed.symm], nofun⟩
  | lineComment hmark hrest =>
    refine .inl ⟨?_, nofun⟩
    rcases hmark with rfl | rfl <;> simpa using fun h => hrest _ h rfl
  | blockComment => exact .inr (.inr ⟨rfl, _, rfl⟩)
  | blanks _ hblanks =>
    exact .inl ⟨fun hfeed => absurd (hblanks _ hfeed) (by decide), nofun⟩

theorem not_mem_of_lastFeed? {cs : List Char} (h : lastFeed? cs = none) : '\n' ∉ cs := by
  induction cs with
  | nil => exact List.not_mem_nil
  | cons c cs ih =>
    rw [lastFeed?] at h
    split at h
    · cases h
    · rename_i hnone
      split at h
      · cases h
      · simp_all [eq_comm]

theorem exists_of_lastFeed? {cs : List Char} {last : Nat} (h : lastFeed? cs = some last) :
    ∃ front line, cs = front ++ '\n' :: line ∧ front.length = last ∧ '\n' ∉ line := by
  induction cs generalizing last with
  | nil => cases h
  | cons c cs ih =>
    rw [lastFeed?] at h
    split at h
    · rename_i earlier hlast
      obtain ⟨front, line, rfl, rfl, hline⟩ := ih hlast
      obtain rfl := Option.some_inj.1 h
      exact ⟨c :: front, line, rfl, rfl, hline⟩
    · rename_i hnone
      split at h
      · obtain rfl := Option.some_inj.1 h
        subst c
        exact ⟨[], cs, rfl, rfl, not_mem_of_lastFeed? hnone⟩
      · cases h

/-! ## Marks -/

namespace LineMark

/-- The mark of the line after `before`. -/
def after (before : List Char) : LineMark :=
  ⟨1 + before.count '\n', before.length - (before.reverse.takeWhile (· != '\n')).length⟩

theorem position_after (before : List Char) :
    (after before).position before.length = Span.after before := by
  have hlength := (List.takeWhile_prefix (p := (· != '\n')) (l := before.reverse)).length_le
  rw [List.length_reverse] at hlength
  rw [position, after, Span.after, Nat.sub_sub_self hlength, Nat.add_comm _ 1]

theorem after_append_line (before : List Char) {line : List Char} (hline : '\n' ∉ line) :
    after (before ++ line) = after before := by
  have hplain : ∀ c ∈ line.reverse, (c != '\n') = true := by
    intro c hc
    exact bne_iff_ne.2 fun h => hline (h ▸ List.mem_reverse.1 hc)
  rw [after, after, List.count_append, List.count_eq_zero_of_not_mem hline, List.reverse_append,
    List.takeWhile_append_of_pos hplain, List.length_append, List.length_append,
    List.length_reverse, Nat.add_comm line.length, Nat.add_sub_add_right, Nat.add_zero]

theorem after_append_feed (before : List Char) {line : List Char} (hline : '\n' ∉ line) :
    after (before ++ '\n' :: line) = ⟨(after before).line + 1, before.length + 1⟩ := by
  have hfeed := after_append_line (before ++ ['\n']) hline
  rw [List.append_assoc, List.singleton_append] at hfeed
  rw [hfeed]
  simp [after, Nat.add_assoc]

theorem passComment_after (before comment : List Char) :
    (after before).passComment before.length comment = after (before ++ comment) := by
  unfold passComment
  split
  · rename_i last hlast
    obtain ⟨front, line, rfl, rfl, hline⟩ := exists_of_lastFeed? hlast
    rw [← List.append_assoc, after_append_feed _ hline]
    simp [after, List.count_eq_zero_of_not_mem hline]
    omega
  · rename_i hnone
    rw [after_append_line before (not_mem_of_lastFeed? hnone)]

/-- The mark after all that stands before a piece leads to the mark after the piece as well. -/
theorem pass_after (before : List Char) {text : List Char} {m : Meaning} (h : Denotes text m) :
    (after before).pass before.length text m = after (before ++ text) := by
  rcases h.feed with ⟨hplain, hm⟩ | ⟨rfl, rfl⟩ | ⟨rfl, rest, rfl⟩
  · unfold pass
    split
    · exact absurd rfl hm
    · split
      · exact passComment_after before text
      · rw [after_append_line before hplain]
    · rw [after_append_line before hplain]
  · rw [after_append_feed before List.not_mem_nil]
    rfl
  · exact passComment_after before _

end LineMark

/-! ## Pieces -/

theorem scan_append (mark : LineMark) (offset : Nat) (text rest : List Char) :
    scan mark offset text.length (text ++ rest) = scan mark (offset + text.length) 0 rest := by
  induction text generalizing offset with
  | nil => rfl
  | cons c text ih =>
    rw [List.length_cons, List.cons_append, scan, ih, Nat.add_assoc, Nat.add_comm 1]

theorem scan_piece {mark : LineMark} {offset : Nat} {p : Piece} {rest : List Char}
    (hne : p.text ≠ []) (hspan : p.span = mark.position offset)
    (hlongest : longest (readings (p.text ++ rest)) = some ⟨p.text.length, p.meaning⟩) :
    scan mark offset 0 (p.text ++ rest) =
      (scan (mark.pass offset p.text p.meaning) (offset + p.text.length) 0 rest).map
        fun pieces => p :: pieces := by
  obtain ⟨text, token?, span⟩ := p
  obtain ⟨c, text, rfl⟩ := List.exists_cons_of_ne_nil hne
  obtain rfl : span = mark.position offset := hspan
  have hoffset : offset + 1 + text.length = offset + (text.length + 1) := by omega
  simp only [List.cons_append] at hlongest ⊢
  cases token?
  all_goals simp only [Piece.meaning, List.length_cons] at hlongest ⊢
  all_goals simp only [scan, hlongest, Nat.add_sub_cancel, scan_append, hoffset]
  all_goals rw [List.take_succ_cons, List.take_left]
  all_goals cases scan _ _ 0 rest <;> rfl

/-- From a mark that is right the cut gives every piece its place. -/
theorem scan_after (before text : List Char) :
    scan (.after before) before.length 0 text = piecesFrom (Span.after before) 0 text := by
  induction hlength : text.length using Nat.strong_induction_on generalizing before text with
  | _ length ih =>
    subst hlength
    cases hlongest : longest (readings text) with
    | none =>
      cases text with
      | nil => rfl
      | cons c text => simp only [scan, piecesFrom, hlongest, LineMark.position_after]
    | some r =>
      obtain ⟨length, meaning⟩ := r
      obtain ⟨text, rest, rfl, rfl, hforemost⟩ := foremost_of_longest hlongest
      have hne := hforemost.denotes.ne_nil
      -- a piece of either kind leaves a shorter text
      have hpiece : ∀ p : Piece, p.text = text → p.meaning = meaning →
          p.span = Span.after before →
          scan (.after before) before.length 0 (text ++ rest)
            = piecesFrom (Span.after before) 0 (text ++ rest) := by
        rintro p rfl rfl hspan
        have hpos := List.length_pos_iff.mpr hne
        have hrest := ih rest.length (by simp; omega) (before ++ p.text) rest rfl
        rw [List.length_append] at hrest
        rw [scan_piece hne (hspan.trans (LineMark.position_after before).symm) hlongest,
          LineMark.pass_after before hforemost.denotes, hrest, ← hspan,
          piecesFrom_piece hne hlongest, hspan, Span.foldl_next]
      cases meaning with
      | token token => exact hpiece ⟨text, some token, Span.after before⟩ rfl rfl rfl
      | skipped => exact hpiece ⟨text, none, Span.after before⟩ rfl rfl rfl
      | refused cause =>
        obtain ⟨c, text, rfl⟩ := List.exists_cons_of_ne_nil hne
        simp only [List.cons_append] at hlongest ⊢
        simp only [scan, piecesFrom, hlongest, LineMark.position_after]

theorem pieces_eq_piecesFrom (source : String) :
    pieces source = piecesFrom .start 0 source.toList :=
  scan_after [] source.toList

theorem pieces_cutsAll (source : String) : CutsAll [] source.toList (pieces source) := by
  rw [pieces_eq_piecesFrom]
  exact piecesFrom_cutsAll [] source.toList

end Pseudocode
