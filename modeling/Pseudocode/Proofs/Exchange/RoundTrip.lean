import Mathlib.Tactic.SplitIfs
import Pseudocode.Exchange.Reader
import Pseudocode.Exchange.Writer

/-! # Documents are read back as they were written

A text that was written for a document is read as this document, in whatever layout it was written,
as long as nothing but white space sets the parts apart. Numbers are left out here: where one of them
ends is only told by what follows it.

* `Reader.Takes`: a reader takes the given characters, whatever follows them.
* `content_takes`: strings, with all that is escaped in them.
* `itemsTo_takes`: rows of parts, which arrays and objects have in common.
* `read?_write`: whole documents. -/

namespace Pseudocode.Exchange
set_option autoImplicit false

/-! ## Readers -/

/-- A reader takes exactly these characters from the front, whatever follows them. -/
def Reader.Takes {α : Type} (reader : Reader α) (cs : List Char) (a : α) : Prop :=
  ∀ rest, reader (cs ++ rest) = some (a, rest)

/-- All characters are white space. -/
def Blank (cs : List Char) : Prop := ∀ c ∈ cs, isJsonSpace c = true

theorem blank_nil : Blank [] := fun _ h => nomatch h

namespace Reader
variable {α β : Type}

theorem bind_apply (reader : Reader β) (next : β → Reader α) (cs : List Char) :
    (reader >>= next) cs = (reader cs).bind fun (b, rest) => next b rest := rfl

theorem Takes.bind {reader : Reader β} {next : β → Reader α} {cs cs' : List Char} {a : α} {b : β}
    (hreader : reader.Takes cs b) (hnext : (next b).Takes cs' a) :
    (reader >>= next).Takes (cs ++ cs') a := by
  intro rest
  rw [bind_apply, List.append_assoc, hreader]
  exact hnext rest

theorem takes_pure (a : α) : (pure a : Reader α).Takes [] a := fun _ => rfl

theorem Takes.map {reader : Reader β} {cs : List Char} {b : β} (f : β → α)
    (hreader : reader.Takes cs b) : (do return f (← reader) : Reader α).Takes cs (f b) := by
  have hmapped : (do return f (← reader) : Reader α).Takes (cs ++ []) (f b) :=
    hreader.bind (takes_pure (f b))
  rwa [List.append_nil] at hmapped

theorem takes_next (c : Char) : next.Takes [c] c := fun _ => rfl

theorem takes_word (cs : List Char) : (word cs).Takes cs () := by
  induction cs with
  | nil => exact takes_pure ()
  | cons c cs ih =>
    refine (takes_next c).bind ?_
    rw [if_pos rfl]
    exact ih

/-- What starts with a part: the white space in front of it is skipped, and the first character of
the part decides. -/
theorem takes_peek {next : Option Char → Reader α} {blanks cs : List Char} {c : Char} {a : α}
    (hblanks : Blank blanks) (hc : isJsonSpace c = false)
    (hnext : (next (some c)).Takes (c :: cs) a) :
    (peekPart? >>= next).Takes (blanks ++ c :: cs) a := by
  intro rest
  have hpeek : peekPart? (blanks ++ c :: cs ++ rest) = some (some c, c :: cs ++ rest) := by
    have hrest : (blanks ++ c :: cs ++ rest).dropWhile isJsonSpace = c :: cs ++ rest := by
      rw [List.append_assoc, List.dropWhile_append_of_pos hblanks, List.cons_append,
        List.dropWhile_cons_of_neg (by simp [hc])]
    rw [peekPart?, hrest]
    rfl
  rw [bind_apply, hpeek]
  exact hnext rest

theorem takes_here {next : Option Char → Reader α} {cs : List Char} {c : Char} {a : α}
    (hc : isJsonSpace c = false) (hnext : (next (some c)).Takes (c :: cs) a) :
    (peekPart? >>= next).Takes (c :: cs) a :=
  takes_peek blank_nil hc hnext

end Reader
open Reader

/-! ## Strings -/

/-- The code of a control character is read back. -/
theorem hexCode?_control {n : Nat} (h : n < 0x20) :
    hexCode? '0' '0' (hexDigit (n / 16)) (hexDigit (n % 16)) = some n := by
  decide +revert

theorem stringCodes_escape {c : Char} {code : Nat} (hc : c ≠ 'u')
    (hcode : escapeCode? c = some code) (cs : List Char) :
    stringCodes ('\\' :: c :: cs) =
      (stringCodes cs).map fun (codes, rest) => (code :: codes, rest) := by
  cases h : stringCodes cs <;> simp [stringCodes, hc, hcode, h]

theorem stringCodes_escapeChar (c : Char) (cs : List Char) :
    stringCodes (escapeChar c ++ cs) =
      (stringCodes cs).map fun (codes, rest) => (c.toNat :: codes, rest) := by
  unfold escapeChar
  split_ifs with hquote hbackslash hbackspace htab hnewline hfeed hreturn hcontrol
  · subst hquote
    exact stringCodes_escape (by decide) rfl cs
  · subst hbackslash
    exact stringCodes_escape (by decide) rfl cs
  · subst hbackspace
    exact stringCodes_escape (by decide) rfl cs
  · subst htab
    exact stringCodes_escape (by decide) rfl cs
  · subst hnewline
    exact stringCodes_escape (by decide) rfl cs
  · subst hfeed
    exact stringCodes_escape (by decide) rfl cs
  · subst hreturn
    exact stringCodes_escape (by decide) rfl cs
  · cases h : stringCodes cs <;> simp [stringCodes, hexCode?_control hcontrol, h]
  · cases h : stringCodes cs <;> simp [stringCodes, hbackslash, hcontrol, h]

theorem stringCodes_escaped (cs rest : List Char) :
    stringCodes (cs.flatMap escapeChar ++ '"' :: rest) = some (cs.map Char.toNat, rest) := by
  induction cs with
  | nil => rfl
  | cons c cs ih =>
    rw [List.flatMap_cons, List.append_assoc, stringCodes_escapeChar, ih]
    rfl

/-- The codes of characters are put together to these characters: none of them is half of one. -/
theorem assemble_codes (cs : List Char) : assemble (cs.map Char.toNat) = some cs := by
  have hwhole (c : Char) : (isHighHalf c.toNat || isLowHalf c.toNat) = false := by
    have hvalid : c.toNat < 0xD800 ∨ 0xDFFF < c.toNat ∧ c.toNat < 0x110000 := c.valid
    simp only [isHighHalf, isLowHalf, Bool.or_eq_false_iff, Bool.and_eq_false_iff,
      decide_eq_false_iff_not]
    omega
  have hhigh (c : Char) : isHighHalf c.toNat = false := (Bool.or_eq_false_iff.1 (hwhole c)).1
  induction cs with
  | nil => rfl
  | cons c cs ih =>
    cases cs with
    | nil =>
      rw [List.map_singleton, assemble, hwhole]
      simp
    | cons d cs =>
      rw [List.map_cons, List.map_cons] at *
      rw [assemble, hwhole, hhigh, ih]
      simp

theorem content_takes (s : String) :
    content.Takes (s.toList.flatMap escapeChar ++ ['"']) (some s) := by
  intro rest
  rw [List.append_assoc, List.singleton_append, content, stringCodes_escaped]
  simp only [Option.bind_eq_bind, Option.bind_some, assemble_codes, Option.map_some,
    String.ofList_toList]
  rfl

/-! ## Rows of parts -/

section Rows
variable {α : Type} {item : Reader α} {close : Char} {blanks : List Char}
  (hblanks : Blank blanks) (hclose : isJsonSpace close = false) (hcomma : close ≠ ',')
include hblanks hclose hcomma

/-- Parts with a comma between two of them, up to the closing character. The induction is on the
parts that follow the first one. -/
theorem itemsTo_takes {text : α → List Char} {cs : List Char} {first : α} {others : List α}
    (hfirst : item.Takes cs first) (hothers : ∀ a ∈ others, item.Takes (text a) a) {bound : Nat}
    (hbound : others.length < bound) :
    (itemsTo close item bound).Takes
      (cs ++ (others.flatMap (fun a => ',' :: text a) ++ (blanks ++ [close]))) (first :: others) := by
  induction others generalizing cs first bound with
  | nil =>
    cases bound with
    | zero => cases hbound
    | succ bound =>
      refine hfirst.bind (takes_peek hblanks hclose ?_)
      rw [if_neg (by simpa using hcomma), if_pos rfl]
      exact (takes_next close).bind (takes_pure _)
  | cons second others ih =>
    cases bound with
    | zero => cases hbound
    | succ bound =>
      have hsecond := hothers second List.mem_cons_self
      have hrest := ih hsecond (fun a ha => hothers a (.tail _ ha)) (Nat.lt_of_succ_lt_succ hbound)
      rw [List.flatMap_cons, List.cons_append, List.cons_append, List.append_assoc (text second)]
      refine hfirst.bind (takes_here rfl ?_)
      rw [if_pos rfl]
      exact (takes_next ',').bind (hrest.map _)

omit hcomma in
theorem list_takes_nil (bound : Nat) : (list close item bound).Takes (blanks ++ [close]) [] := by
  refine takes_peek hblanks hclose ?_
  rw [if_pos rfl]
  exact (takes_next close).bind (takes_pure _)

/-- Parts between brackets, each of them led by white space. -/
theorem list_takes {lead : List Char} (hlead : Blank lead) {body : α → List Char} {first : α}
    {others : List α}
    (hitem : ∀ a ∈ first :: others, ∀ blanks, Blank blanks → item.Takes (blanks ++ body a) a)
    (hhead : ∃ c cs, body first = c :: cs ∧ isJsonSpace c = false ∧ c ≠ close) {bound : Nat}
    (hbound : others.length < bound) :
    (list close item bound).Takes
      (lead ++ body first ++ others.flatMap (fun a => ',' :: (lead ++ body a)) ++ blanks ++ [close])
      (first :: others) := by
  obtain ⟨c, cs, hbody, hc, hne⟩ := hhead
  have hfirst := hitem first List.mem_cons_self [] blank_nil
  have hitems := itemsTo_takes hblanks hclose hcomma hfirst
    (fun a ha => hitem a (.tail _ ha) lead hlead) hbound
  rw [List.nil_append, hbody] at hitems
  rw [List.append_assoc, List.append_assoc, List.append_assoc, hbody]
  refine takes_peek hlead hc ?_
  rw [if_neg (by simpa using hne)]
  exact hitems

end Rows

/-- Between two brackets there is room for each part, and for as many characters as there are parts
after the first one. -/
theorem rows_bound {α : Type} {body : α → List Char} {lead blanks : List Char} {first : α}
    {others : List α} {opening closing : Char} {bound : Nat}
    (h : (opening :: (lead ++ body first ++ others.flatMap (fun a => ',' :: (lead ++ body a)) ++
      blanks ++ [closing])).length < bound + 1) :
    others.length < bound ∧ ∀ a ∈ first :: others, (body a).length < bound := by
  have hrow : others.length ≤ (others.flatMap fun a => ',' :: (lead ++ body a)).length ∧
      ∀ a ∈ others, (body a).length ≤ (others.flatMap fun a => ',' :: (lead ++ body a)).length := by
    clear h
    induction others with
    | nil => exact ⟨Nat.le_refl _, fun _ ha => nomatch ha⟩
    | cons second others ih =>
      simp only [List.flatMap_cons, List.cons_append, List.length_cons, List.length_append]
      refine ⟨by omega, fun a ha => ?_⟩
      rcases List.mem_cons.1 ha with rfl | ha
      · omega
      · have hle := ih.2 a ha
        omega
  simp only [List.length_cons, List.length_append] at h
  refine ⟨by omega, fun a ha => ?_⟩
  rcases List.mem_cons.1 ha with rfl | ha
  · omega
  · have hle := hrow.2 a ha
    omega

/-! ## Documents -/

/-- The white space of a layout is white space, and a colon stands behind each name. -/
structure Layout.Spaced (layout : Layout) : Prop where
  lead (level : Nat) : Blank (layout.lead level)
  colon : ∃ blanks, layout.colon = ':' :: blanks ∧ Blank blanks

theorem Layout.spaced_compact : Layout.compact.Spaced where
  lead _ := blank_nil
  colon := ⟨[], rfl, blank_nil⟩

theorem Layout.spaced_pretty : Layout.pretty.Spaced where
  lead level c h := by
    rcases List.mem_cons.1 h with rfl | h
    · rfl
    · rw [List.eq_of_mem_replicate h]
      rfl
  colon := ⟨[' '], rfl, fun c h => by rw [List.mem_singleton.1 h]; rfl⟩

/-- A document without numbers, all of whose strings have a content. -/
inductive Textual : Json → Prop where
  | null : Textual .null
  | bool (b : Bool) : Textual (.bool b)
  | text (s : String) : Textual (.ofText s)
  | array {items : List Json} : (∀ item ∈ items, Textual item) → Textual (.array items)
  | object {members : List (Content × Json)} :
      (∀ member ∈ members, ∃ name, member.1 = some name) → (∀ member ∈ members, Textual member.2) →
      Textual (.object members)

section Documents
variable {layout : Layout}

theorem writeItems_eq (level : Nat) (items : List Json) :
    writeItems layout level items =
      items.flatMap fun item => ',' :: (layout.lead level ++ writeAt layout level item) := by
  induction items with
  | nil => rfl
  | cons item items ih => rw [writeItems, ih, List.flatMap_cons, List.cons_append]

/-- A name and its value. -/
def memberText (layout : Layout) (level : Nat) (member : Content × Json) : List Char :=
  writeContent member.1 ++ layout.colon ++ writeAt layout level member.2

theorem writeMembers_eq (level : Nat) (members : List (Content × Json)) :
    writeMembers layout level members =
      members.flatMap fun member => ',' :: (layout.lead level ++ memberText layout level member) := by
  induction members with
  | nil => rfl
  | cons member members ih =>
    rw [writeMembers, ih, List.flatMap_cons, List.cons_append, memberText]
    simp only [List.append_assoc]

/-- No document begins with white space or with a closing bracket. -/
theorem Textual.head {json : Json} (h : Textual json) (level : Nat) :
    ∃ c cs, writeAt layout level json = c :: cs ∧ isJsonSpace c = false ∧ c ≠ ']' := by
  cases h with
  | null => exact ⟨'n', _, rfl, rfl, by decide⟩
  | bool b => cases b <;> exact ⟨_, _, rfl, rfl, by decide⟩
  | text s => exact ⟨'"', _, rfl, rfl, by decide⟩
  | @array items _ => cases items <;> exact ⟨'[', _, by rw [writeAt], rfl, by decide⟩
  | @object members _ _ => cases members <;> exact ⟨'\x7b', _, by rw [writeAt], rfl, by decide⟩

theorem member_takes (hlayout : layout.Spaced) {value : Reader Json} {blanks : List Char}
    (hblanks : Blank blanks) {level : Nat} (name : String) {json : Json}
    (hvalue : ∀ blanks, Blank blanks → value.Takes (blanks ++ writeAt layout level json) json) :
    (member value).Takes (blanks ++ memberText layout level (some name, json)) (some name, json) := by
  obtain ⟨inner, hcolon, hinner⟩ := hlayout.colon
  have htext : memberText layout level (some name, json) =
      '"' :: (name.toList.flatMap escapeChar ++ ['"'] ++
        ':' :: (inner ++ writeAt layout level json)) := by
    simp only [memberText, writeContent, hcolon, List.cons_append, List.append_assoc]
  rw [htext]
  refine takes_peek hblanks rfl ?_
  rw [if_pos rfl]
  refine (takes_next '"').bind ((content_takes name).bind ?_)
  refine takes_here rfl ?_
  rw [if_pos rfl]
  exact (takes_next ':').bind ((hvalue inner hinner).map _)

/-- A document is read in any layout and within any bound that its text allows. The induction follows
the document. -/
theorem valueWithin_takes (hlayout : layout.Spaced) {json : Json} (h : Textual json) (level : Nat)
    {bound : Nat} (hbound : (writeAt layout level json).length < bound) {blanks : List Char}
    (hblanks : Blank blanks) :
    (valueWithin bound).Takes (blanks ++ writeAt layout level json) json := by
  obtain ⟨bound, rfl⟩ := Nat.exists_eq_add_one_of_ne_zero (Nat.ne_zero_of_lt hbound)
  induction h generalizing level bound blanks with
  | null => exact takes_peek hblanks rfl ((takes_word _).bind (takes_pure _))
  | bool b =>
    cases b with
    | true => exact takes_peek hblanks rfl ((takes_word _).bind (takes_pure _))
    | false => exact takes_peek hblanks rfl ((takes_word _).bind (takes_pure _))
  | text s => exact takes_peek hblanks rfl ((takes_next '"').bind ((content_takes s).map _))
  | @array items hitems ih =>
    cases items with
    | nil =>
      have hclose : (list ']' (valueWithin bound) bound).Takes [']'] [] :=
        list_takes_nil blank_nil rfl bound
      exact takes_peek hblanks rfl ((takes_next '[').bind (hclose.map Json.array))
    | cons first rest =>
      rw [writeAt, writeItems_eq] at hbound ⊢
      obtain ⟨hlength, hbodies⟩ := rows_bound hbound
      have hitem (item : Json) (hmem : item ∈ first :: rest) (blanks : List Char)
          (hblanks : Blank blanks) :
          (valueWithin bound).Takes (blanks ++ writeAt layout (level + 1) item) item := by
        have hbody := hbodies item hmem
        obtain ⟨bound, rfl⟩ := Nat.exists_eq_add_one_of_ne_zero (Nat.ne_zero_of_lt hbody)
        exact ih item hmem (level + 1) hblanks bound hbody
      have hitems := list_takes (hlayout.lead level) rfl (by decide) (hlayout.lead (level + 1)) hitem
        ((hitems first List.mem_cons_self).head (level + 1)) hlength
      exact takes_peek hblanks rfl ((takes_next '[').bind (hitems.map Json.array))
  | @object members hnames hvalues ih =>
    cases members with
    | nil =>
      have hclose : (list '\x7d' (member (valueWithin bound)) bound).Takes ['\x7d'] [] :=
        list_takes_nil blank_nil rfl bound
      exact takes_peek hblanks rfl ((takes_next '\x7b').bind (hclose.map Json.object))
    | cons first rest =>
      have htext : writeAt layout level (.object (first :: rest)) =
          '\x7b' :: (layout.lead (level + 1) ++ memberText layout (level + 1) first ++
            rest.flatMap (fun member =>
              ',' :: (layout.lead (level + 1) ++ memberText layout (level + 1) member)) ++
            layout.lead level ++ ['\x7d']) := by
        obtain ⟨name, value⟩ := first
        rw [writeAt, writeMembers_eq, memberText]
        simp only [List.append_assoc]
      rw [htext] at hbound ⊢
      obtain ⟨hlength, hbodies⟩ := rows_bound hbound
      have hmember (entry : Content × Json) (hmem : entry ∈ first :: rest) (blanks : List Char)
          (hblanks : Blank blanks) :
          (member (valueWithin bound)).Takes (blanks ++ memberText layout (level + 1) entry)
            entry := by
        have hbody := hbodies entry hmem
        obtain ⟨_, value⟩ := entry
        obtain ⟨name, rfl⟩ := hnames _ hmem
        have hvalue : (writeAt layout (level + 1) value).length < bound := by
          simp only [memberText, List.length_append] at hbody
          omega
        obtain ⟨bound, rfl⟩ := Nat.exists_eq_add_one_of_ne_zero (Nat.ne_zero_of_lt hvalue)
        exact member_takes hlayout hblanks name fun blanks hblanks =>
          ih _ hmem (level + 1) hblanks bound hvalue
      have hhead : ∃ c cs, memberText layout (level + 1) first = c :: cs ∧ isJsonSpace c = false ∧
          c ≠ '\x7d' := by
        obtain ⟨_, value⟩ := first
        obtain ⟨name, rfl⟩ := hnames _ List.mem_cons_self
        exact ⟨'"', _, rfl, rfl, by decide⟩
      have hmembers := list_takes (hlayout.lead level) rfl (by decide) (hlayout.lead (level + 1))
        hmember hhead hlength
      exact takes_peek hblanks rfl ((takes_next '\x7b').bind (hmembers.map Json.object))

/-- What is written for a document in any layout is read as this document. -/
theorem read?_write (hlayout : layout.Spaced) {json : Json} (h : Textual json) :
    Json.read? (json.write layout) = some json := by
  have hvalue := valueWithin_takes hlayout h 0 (Nat.lt_succ_self _) blank_nil []
  rw [List.nil_append, List.append_nil] at hvalue
  rw [Json.read?, Json.write, String.toList_ofList, hvalue]
  rfl

end Documents
end Pseudocode.Exchange
