import Mathlib.Data.Bool.Basic
import Mathlib.Data.Int.Order.Basic
import Mathlib.Order.Compare
import Mathlib.Order.Lattice
import Pseudocode.Proofs.Text.ByteOrder
import Pseudocode.Value.Operation

/-! # Comparisons

Two values of one kind are compared by a key in a linear order: an `ENTIER` by its number, a text by
the code points of its characters, a truth value by itself. What the six operators answer is then
what the relations of that order say of the keys.

* `OrderedBy.holds_iff`: a comparison holds exactly if its relation holds of the keys.
* `comparison_laws`: the six operators are those of one total order for each kind. -/

namespace Pseudocode
set_option autoImplicit false

/-! ## Keys -/

section Keys
variable {β : Type} [LinearOrder β] {a b : β}

/-- The two elements stand in the given order. -/
def InOrder (a b : β) : Ordering → Prop
  | .lt => a < b
  | .eq => a = b
  | .gt => b < a

/-- The relation that a comparison is named for. -/
def BinOp.Relates (a b : β) : BinOp → Prop
  | .equal => a = b
  | .notEqual => a ≠ b
  | .less => a < b
  | .greater => b < a
  | .lessEqual => a ≤ b
  | .greaterEqual => b ≤ a
  | _ => False

theorem holds_iff_relates {order : Ordering} (h : InOrder a b order) (op : BinOp) :
    Value.holds op (some order) = true ↔ op.Relates a b := by
  cases order with
  | lt =>
    have hlt : a < b := h
    cases op <;> simp [Value.holds, BinOp.Relates, hlt, hlt.le, hlt.ne, hlt.not_gt]
  | eq =>
    obtain rfl : a = b := h
    cases op <;> simp [Value.holds, BinOp.Relates]
  | gt =>
    have hgt : b < a := h
    cases op <;> simp [Value.holds, BinOp.Relates, hgt, hgt.le, hgt.ne', hgt.not_gt]

theorem inOrder_compare {α : Type} [LinearOrder α] (a b : α) : InOrder a b (compare a b) := by
  cases h : compare a b with
  | lt => exact compare_lt_iff_lt.1 h
  | eq => exact compare_eq_iff_eq.1 h
  | gt => exact compare_gt_iff_gt.1 h

end Keys

/-! ## Comparisons that hold -/

/-- The comparison is carried out on every line, and it is true. -/
def Holds (op : BinOp) (x y : Value) : Prop :=
  ∀ line, Value.comparison op x y line = .ok (.boolean true)

/-- The values of a family are compared by their keys. -/
def OrderedBy {ι β : Type} [LinearOrder β] (value : ι → Value) (key : ι → β) : Prop :=
  ∀ i j, ∃ order, Value.order? (value i) (value j) = some (some order) ∧ InOrder (key i) (key j) order

/-- What the six comparisons say of three values: they are those of one total order. -/
structure ComparisonLaws (x y z : Value) : Prop where
  answers : ∀ op : BinOp, op.family = .comparison →
    ∃ b, ∀ line, Value.comparison op x y line = .ok (.boolean b)
  one : (Holds .less x y ∧ ¬Holds .equal x y ∧ ¬Holds .greater x y) ∨
    (¬Holds .less x y ∧ Holds .equal x y ∧ ¬Holds .greater x y) ∨
    (¬Holds .less x y ∧ ¬Holds .equal x y ∧ Holds .greater x y)
  lessEqual : Holds .lessEqual x y ↔ Holds .less x y ∨ Holds .equal x y
  greaterEqual : Holds .greaterEqual x y ↔ Holds .greater x y ∨ Holds .equal x y
  notEqual : Holds .notEqual x y ↔ ¬Holds .equal x y
  less_swap : Holds .less x y ↔ Holds .greater y x
  lessEqual_swap : Holds .lessEqual x y ↔ Holds .greaterEqual y x
  less_trans : Holds .less x y → Holds .less y z → Holds .less x z
  lessEqual_trans : Holds .lessEqual x y → Holds .lessEqual y z → Holds .lessEqual x z
  equal_refl : Holds .equal x x
  equal_symm : Holds .equal x y → Holds .equal y x
  equal_trans : Holds .equal x y → Holds .equal y z → Holds .equal x z
  /-- Equal values compare alike with any other value, on either side. -/
  equal_respected : Holds .equal x y →
    ∀ op, (Holds op x z ↔ Holds op y z) ∧ (Holds op z x ↔ Holds op z y)

section Family
variable {ι β : Type} [LinearOrder β] {value : ι → Value} {key : ι → β}

theorem OrderedBy.answer (h : OrderedBy value key) (op : BinOp) (i j : ι) :
    ∃ b, (∀ line, Value.comparison op (value i) (value j) line = .ok (.boolean b)) ∧
      (b = true ↔ op.Relates (key i) (key j)) := by
  obtain ⟨order, horder, hkeys⟩ := h i j
  refine ⟨Value.holds op (some order), fun line => ?_, holds_iff_relates hkeys op⟩
  rw [Value.comparison, horder]

/-- A comparison holds exactly if its relation holds of the keys. -/
theorem OrderedBy.holds_iff (h : OrderedBy value key) (op : BinOp) (i j : ι) :
    Holds op (value i) (value j) ↔ op.Relates (key i) (key j) := by
  obtain ⟨b, hanswer, hrelates⟩ := h.answer op i j
  simp [Holds, hanswer, hrelates]

theorem OrderedBy.laws (h : OrderedBy value key) (i j k : ι) :
    ComparisonLaws (value i) (value j) (value k) := by
  have hiff := h.holds_iff
  constructor
  case answers =>
    intro op _
    obtain ⟨b, hanswer, -⟩ := h.answer op i j
    exact ⟨b, hanswer⟩
  case one =>
    simp only [hiff, BinOp.Relates]
    rcases lt_trichotomy (key i) (key j) with hlt | heq | hgt
    · exact .inl ⟨hlt, hlt.ne, hlt.not_gt⟩
    · exact .inr (.inl ⟨heq.not_lt, heq, heq.not_gt⟩)
    · exact .inr (.inr ⟨hgt.not_gt, hgt.ne', hgt⟩)
  case lessEqual =>
    simp only [hiff, BinOp.Relates]
    exact le_iff_lt_or_eq
  case greaterEqual =>
    simp only [hiff, BinOp.Relates]
    exact le_iff_lt_or_eq.trans (or_congr_right eq_comm)
  case notEqual => simp only [hiff, BinOp.Relates, ne_eq]
  case less_swap => simp only [hiff, BinOp.Relates]
  case lessEqual_swap => simp only [hiff, BinOp.Relates]
  case less_trans => simpa only [hiff, BinOp.Relates] using lt_trans
  case lessEqual_trans => simpa only [hiff, BinOp.Relates] using le_trans
  case equal_refl => simp only [hiff, BinOp.Relates]
  case equal_symm => simpa only [hiff, BinOp.Relates] using Eq.symm
  case equal_trans => simpa only [hiff, BinOp.Relates] using Eq.trans
  case equal_respected =>
    intro hequal op
    have hkey : key i = key j := (hiff _ _ _).1 hequal
    simp only [hiff, hkey, and_self]

end Family

/-! ## Kinds -/

/-- A kind of values that can be compared with each other. -/
inductive Kind where
  | number
  | text
  | truth
deriving DecidableEq

/-- The kind of a value; what is uninitialized is of none. -/
def Value.kind? : Value → Option Kind
  | .integer _ | .real _ => some .number
  | .string _ | .character _ => some .text
  | .boolean _ => some .truth
  | .uninitialized => none

/-- A value of the kind other than a `REEL`. -/
def Value.Exact (kind : Kind) (v : Value) : Prop := v.kind? = some kind ∧ v.ty? ≠ some .reel

theorem inOrder_cons {order : Ordering} {n : Nat} {ns ms : List Nat} (h : InOrder ns ms order) :
    InOrder (n :: ns) (n :: ms) order := by
  cases order with
  | lt => exact .cons h
  | eq => exact congrArg (n :: ·) h
  | gt => exact .cons h

theorem inOrder_compareLex (as bs : List UInt8) :
    InOrder (as.map UInt8.toNat) (bs.map UInt8.toNat) (List.compareLex compare as bs) := by
  induction as generalizing bs with
  | nil =>
    cases bs with
    | nil => rfl
    | cons b bs => exact .nil
  | cons a as ih =>
    cases bs with
    | nil => exact .nil
    | cons b bs =>
      -- where the first bytes are equal, the order of the rest decides
      have hhead := inOrder_compare a.toNat b.toNat
      rw [List.compareLex_cons_cons, UInt8.compare_eq_toNat_compare_toNat, List.map_cons,
        List.map_cons]
      cases horder : compare a.toNat b.toNat with
      | lt | gt =>
        rw [horder] at hhead
        exact .rel hhead
      | eq =>
        rw [horder] at hhead
        have hbytes : a.toNat = b.toNat := hhead
        rw [hbytes]
        exact inOrder_cons (ih bs)

/-- Texts stand in the lexicographic order of their code points. -/
theorem inOrder_textOrder (s t : String) :
    InOrder (Text.codes s) (Text.codes t) (Value.textOrder s t) := by
  have hbytes : InOrder (Text.bytes s) (Text.bytes t) (Value.textOrder s t) :=
    inOrder_compareLex _ _
  cases horder : Value.textOrder s t with
  | lt =>
    rw [horder] at hbytes
    exact Text.bytes_lt_iff.1 hbytes
  | eq =>
    rw [horder] at hbytes
    exact Text.codes_eq_of_bytes_eq hbytes
  | gt =>
    rw [horder] at hbytes
    exact Text.bytes_lt_iff.1 hbytes

theorem orderedBy_number : OrderedBy Value.integer Int64.toInt :=
  fun a b => ⟨_, rfl, inOrder_compare a.toInt b.toInt⟩

theorem orderedBy_truth : OrderedBy Value.boolean id := by
  intro a b
  refine ⟨_, rfl, ?_⟩
  cases a <;> cases b
  · exact rfl
  · exact Bool.false_lt_true
  · exact Bool.false_lt_true
  · exact rfl

theorem reel?_of_text? {x : Value} {s : String} (h : x.text? = some s) : x.reel? = none := by
  cases x <;> first | rfl | cases h

theorem order?_of_text? {x y : Value} {s t : String} (hx : x.text? = some s)
    (hy : y.text? = some t) :
    Value.order? x y = some (some (Value.textOrder s t)) := by
  unfold Value.order?
  split
  · cases hx
  · cases hx
  · rw [reel?_of_text? hx, hx, hy]

theorem orderedBy_text :
    OrderedBy (fun p : {p : Value × String // p.1.text? = some p.2} => p.1.1)
      (fun p => Text.codes p.1.2) :=
  fun p q => ⟨_, order?_of_text? p.2 q.2, inOrder_textOrder _ _⟩

/-- Values of two kinds, or of none, are not compared. -/
theorem order?_eq_none {x y : Value} (h : ∀ kind, x.kind? = some kind → y.kind? ≠ some kind) :
    Value.order? x y = none := by
  cases x <;> cases y <;> first | rfl | exact absurd rfl (h _ rfl)

theorem Value.Exact.text? {v : Value} (h : v.Exact .text) : ∃ s, v.text? = some s := by
  obtain ⟨hkind, -⟩ := h
  cases v <;> first | exact ⟨_, rfl⟩ | cases hkind

theorem Value.Exact.number {v : Value} (h : v.Exact .number) : ∃ n, v = .integer n := by
  obtain ⟨hkind, hreel⟩ := h
  cases v <;> first | exact ⟨_, rfl⟩ | exact absurd rfl hreel | cases hkind

theorem Value.Exact.truth {v : Value} (h : v.Exact .truth) : ∃ b, v = .boolean b := by
  obtain ⟨hkind, -⟩ := h
  cases v <;> first | exact ⟨_, rfl⟩ | cases hkind

theorem Value.Exact.laws {kind : Kind} {x y z : Value} (hx : x.Exact kind) (hy : y.Exact kind)
    (hz : z.Exact kind) : ComparisonLaws x y z := by
  cases kind with
  | number =>
    obtain ⟨a, rfl⟩ := hx.number
    obtain ⟨b, rfl⟩ := hy.number
    obtain ⟨c, rfl⟩ := hz.number
    exact orderedBy_number.laws a b c
  | text =>
    obtain ⟨s, hs⟩ := hx.text?
    obtain ⟨t, ht⟩ := hy.text?
    obtain ⟨u, hu⟩ := hz.text?
    exact orderedBy_text.laws ⟨(x, s), hs⟩ ⟨(y, t), ht⟩ ⟨(z, u), hu⟩
  | truth =>
    obtain ⟨a, rfl⟩ := hx.truth
    obtain ⟨b, rfl⟩ := hy.truth
    obtain ⟨c, rfl⟩ := hz.truth
    exact orderedBy_truth.laws a b c

/-- The six comparisons are those of one total order for each kind of values, `REEL` apart; an
`ENTIER` stands in it by its number, a text by its code points and `FAUX` before `VRAI`. Values that
are not of one kind are a mismatch. -/
theorem comparison_laws :
    (∀ kind x y z, x.Exact kind → y.Exact kind → z.Exact kind → ComparisonLaws x y z) ∧
      (∀ a b : Entier, Holds .less (.integer a) (.integer b) ↔ a.toInt < b.toInt) ∧
      (∀ x y s t, x.text? = some s → y.text? = some t →
        (Holds .less x y ↔ List.Lex (· < ·) (Text.codes s) (Text.codes t))) ∧
      (∀ a b, Holds .less (.boolean a) (.boolean b) ↔ a = false ∧ b = true) ∧
      (∀ c, Holds .equal (.character c) (.string (String.singleton c))) ∧
      ∀ x y, (∀ kind, x.kind? = some kind → y.kind? ≠ some kind) → ∀ op line,
        Value.comparison op x y line =
          .error ⟨.typeMismatch (.cannotCompare op x.ty? y.ty?), line⟩ := by
  refine ⟨?laws, orderedBy_number.holds_iff .less, ?texts, ?truths, ?characters, ?mismatch⟩
  case laws => exact fun kind x y z hx hy hz => hx.laws hy hz
  case texts => exact fun x y s t hx hy => orderedBy_text.holds_iff .less ⟨(x, s), hx⟩ ⟨(y, t), hy⟩
  case truths =>
    intro a b
    rw [orderedBy_truth.holds_iff]
    cases a <;> cases b <;> simp [BinOp.Relates]
  case characters =>
    intro c
    have hequal := orderedBy_text.holds_iff .equal ⟨(.character c, _), rfl⟩
      ⟨(.string (String.singleton c), _), rfl⟩
    exact hequal.2 rfl
  case mismatch =>
    intro x y h op line
    rw [Value.comparison, order?_eq_none h]

theorem comparison_laws_mixed_texts :
    ComparisonLaws (.character 'é') (.string "é") (.string "été") ∧
      Value.comparison .less (.string "1") (.integer 1) 3 =
        .error ⟨.typeMismatch (.cannotCompare .less (some .chaine) (some .entier)), 3⟩ := by
  obtain ⟨hlaws, -, -, -, -, hmismatch⟩ := comparison_laws
  refine ⟨hlaws .text _ _ _ ⟨rfl, by decide⟩ ⟨rfl, by decide⟩ ⟨rfl, by decide⟩, ?_⟩
  exact hmismatch (.string "1") (.integer 1) (fun kind h => by cases h; decide) .less 3

end Pseudocode
