import Pseudocode.Machine.Eval
import Pseudocode.Proofs.Grammar.Acceptance
import Pseudocode.Proofs.Lexing.LetterCase
import Pseudocode.Proofs.Lexing.Written

/-! # Printed integers as expressions

The printed form of an `ENTIER` is digits, behind a minus sign if it is negative. As a source, the
sign is an operator of its own and the digits are a literal, which must be an `ENTIER` without the
sign. So the printed form is an expression with that value, but for the smallest `ENTIER`: its
opposite is none.

* `isExpressionOf_text`: the integers whose printed form is an expression with their value. -/

namespace Pseudocode
set_option autoImplicit false

/-- A text is read to its end as an expression, which has the value in every state of the machine
and leaves it as it was. -/
def IsExpressionOf (text : String) (value : Value) : Prop :=
  ∃ lexemes expr, tokenize text = .ok lexemes ∧ Parser.expression lexemes = .ok (expr, []) ∧
    ∀ (invoke : Invoke) (m : Machine), eval invoke expr m = .ok value m

/-! ## The sign -/

/-- A minus sign opens no fixed spelling but its own: the first character decides, whatever the
others are. -/
theorem fixed_readings_minus (cs : List Char) :
    vocabulary.filterMap (·.reading? ('-' :: cs)) = [⟨1, .token (.op .sub)⟩] := by
  rfl

theorem longest_minus (cs : List Char) :
    longest (readings ('-' :: cs)) = some ⟨1, .token (.op .sub)⟩ := by
  simp [readings, fixed_readings_minus, name?, isNameStart, number?, string?, character?, comment?,
    spaces?, isSpace, longest]

theorem pieces_minus {source : String} {cs : List Char} (h : source.toList = '-' :: cs) :
    pieces source =
      (piecesFrom ⟨1, 2⟩ 0 cs).map fun rest => ⟨['-'], some (.op .sub), .start⟩ :: rest := by
  have hpiece := @piecesFrom_piece ⟨['-'], some (.op .sub), .start⟩ cs (by simp) (longest_minus cs)
  rw [pieces_eq_piecesFrom, h]
  exact hpiece

/-! ## The digits -/

theorem piecesFrom_integer {digits : List Char} {n : Nat} {a : Entier} (h : Numeral digits n)
    (ha : a.toInt = n) (span : Span) :
    piecesFrom span 0 digits = .ok [⟨digits, some (.literal (.integer a)), span⟩] := by
  obtain ⟨hne, hall⟩ := h.digits
  have hlongest := longest_digits hne hall (.inl rfl)
  rw [integerMeaning_of_numeral h, ← ha, Entier.ofInt?_toInt] at hlongest
  have hpiece := @piecesFrom_piece ⟨digits, some (.literal (.integer a)), span⟩ [] hne hlongest
  rw [List.append_nil] at hpiece
  rw [hpiece, piecesFrom]
  rfl

theorem piecesFrom_tooLarge {digits : List Char} {n : Nat} (h : Numeral digits n)
    (hn : ¬Entier.Fits n) (span : Span) :
    piecesFrom span 0 digits = .error ⟨.integerTooLarge (String.ofList digits), span⟩ := by
  obtain ⟨hne, hall⟩ := h.digits
  have hlongest := longest_digits hne hall (.inl rfl)
  rw [integerMeaning_of_numeral h, Entier.ofInt?_eq_none_iff.2 hn, List.append_nil] at hlongest
  exact piecesFrom_refused hne hlongest span

/-! ## Printed integers -/

theorem tokenize_of_nonneg {n : Entier} (h : 0 ≤ n.toInt) :
    tokenize n.text = .ok [⟨.literal (.integer n), .start⟩] := by
  have hnumeral := numeral_toDigits n.toInt.toNat
  rw [← Entier.text_toList h] at hnumeral
  have hpieces := piecesFrom_integer hnumeral (Int.toNat_of_nonneg h).symm .start
  rw [tokenize, pieces_eq_piecesFrom, hpieces]
  rfl

theorem tokenize_of_neg {n a : Entier} (h : n.toInt < 0) (ha : a.toInt = n.toInt.natAbs) :
    tokenize n.text = .ok [⟨.op .sub, .start⟩, ⟨.literal (.integer a), ⟨1, 2⟩⟩] := by
  have hpieces := piecesFrom_integer (numeral_toDigits n.toInt.natAbs) ha ⟨1, 2⟩
  rw [tokenize, pieces_minus (Entier.text_of_neg h), hpieces]
  rfl

/-- The digits of the smallest `ENTIER` are no literal. -/
theorem tokenize_text_minValue : tokenize (Value.integer Int64.minValue).text =
    .error ⟨.integerTooLarge "9223372036854775808", ⟨1, 2⟩⟩ := by
  have hneg : Int64.minValue.toInt < 0 := by decide
  have htext := Entier.text_of_neg hneg
  have hnumeral := numeral_toDigits Int64.minValue.toInt.natAbs
  have hlarge : ¬Entier.Fits Int64.minValue.toInt.natAbs := by decide
  have hdigits : String.ofList (Nat.toDigits 10 Int64.minValue.toInt.natAbs) =
      "9223372036854775808" := by decide +kernel
  rw [Value.text, tokenize, pieces_minus htext, piecesFrom_tooLarge hnumeral hlarge, hdigits]
  rfl

theorem Derives.parses {ls : List Lexeme} {e : Expr} (h : Derives 5 ls e) :
    Parser.expression ls = .ok (e, []) := by
  have hstops : Stops 5 ls [] := ⟨nofun, nofun⟩
  have hparse := h.expression hstops
  rwa [List.append_nil] at hparse

theorem isExpressionOf_of_nonneg {n : Entier} (h : 0 ≤ n.toInt) :
    IsExpressionOf n.text (.integer n) := by
  have hliteral := DerivesPrimary.literal (.integer n) .start
  have hderives := (Derives.prefixed (.primary hliteral)).lift (Nat.zero_le 5)
  exact ⟨_, _, tokenize_of_nonneg h, hderives.parses, fun _ _ => rfl⟩

/-- The opposite of an `ENTIER` other than the smallest is one, and its opposite is the first. -/
theorem Entier.exists_opposite {n : Entier} (hn : n ≠ Int64.minValue) :
    ∃ a : Entier, a.toInt = -n.toInt ∧ a.neg? = some n := by
  have hlow : n.toInt ≠ -2 ^ 63 := fun hmin => hn (Int64.toInt_inj.1 hmin)
  obtain ⟨hge, hlt⟩ := fits_toInt n
  have hfits : Fits (-n.toInt) := by
    constructor <;> omega
  refine ⟨Int64.ofInt (-n.toInt), toInt_ofInt hfits, ?_⟩
  rw [neg?, toInt_ofInt hfits, Int.neg_neg, ofInt?_toInt]

theorem isExpressionOf_of_neg {n : Entier} (h : n.toInt < 0) (hn : n ≠ Int64.minValue) :
    IsExpressionOf n.text (.integer n) := by
  -- the literal is the opposite of what is printed, and the sign takes it back
  obtain ⟨a, ha, hneg⟩ := Entier.exists_opposite hn
  have htokens := tokenize_of_neg h (ha.trans (by omega))
  have hliteral := DerivesPrimary.literal (.integer a) ⟨1, 2⟩
  have hnegated := @DerivesPrefixed.negate _ _ .start (.primary hliteral)
  have hderives := (Derives.prefixed hnegated).lift (Nat.zero_le 5)
  refine ⟨_, _, htokens, hderives.parses, fun invoke m => ?_⟩
  have hunary : Value.unary .negate (.integer a) 1 = .ok (.integer n) := by
    rw [Value.unary, hneg]
    rfl
  have heval : eval invoke (.unary .negate (.literal (.integer a) 1) 1) m =
      Run.lift (Value.unary .negate (.integer a) 1) m := rfl
  exact heval.trans (by rw [hunary]; rfl)

theorem not_isExpressionOf {text : String} {value : Value} {error : LexError}
    (h : tokenize text = .error error) : ¬IsExpressionOf text value := by
  rintro ⟨lexemes, expr, htokens, -, -⟩
  rw [h] at htokens
  cases htokens

/-- The printed form of an `ENTIER` is an expression with that value exactly if the `ENTIER` is not
the smallest; there the digits after the sign are refused. -/
theorem isExpressionOf_text :
    (∀ n : Entier, IsExpressionOf (Value.integer n).text (.integer n) ↔ n ≠ Int64.minValue) ∧
      tokenize (Value.integer Int64.minValue).text =
        .error ⟨.integerTooLarge "9223372036854775808", ⟨1, 2⟩⟩ := by
  refine ⟨fun n => ?_, tokenize_text_minValue⟩
  constructor
  · rintro h rfl
    exact not_isExpressionOf tokenize_text_minValue h
  · intro hn
    rcases Int.lt_or_le n.toInt 0 with hneg | hnonneg
    · exact isExpressionOf_of_neg hneg hn
    · exact isExpressionOf_of_nonneg hnonneg

theorem not_isExpressionOf_text_minValue :
    ¬IsExpressionOf (Value.integer Int64.minValue).text (.integer Int64.minValue) :=
  not_isExpressionOf tokenize_text_minValue

end Pseudocode
