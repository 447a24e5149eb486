/-
TraceFlow.Proofs.Json.Documents — reading what was written.

A document is written with some spacing, at some level, in front of
something else. `Reads r j a` says that the reader `r` takes it as `a`
for every spacing and level, in front of anything that cannot go on with
a number; and that `r` looks past white space before it does anything
else, so that it reads the document behind a line break or a gap as well
(`Skips`, `Takes.blanks`).

Each reader of a shape has a fact of this kind that asks the same of the
readers of its parts: `Reads.natural`, `Reads.string`, `Reads.option`,
`Reads.array`, `Reads.members`, `Reads.record`, `Reads.choice`. A
sequence and an object are written as a row of parts (`rowBytes`), and
read part by part: what stands before a part tells the reader that
another one follows (`takes_moreItems`, `takes_moreMembers`), what stands
behind the last one that none does, and the parts are taken by induction
on their list (`takes_items`, `takes_membersFrom`,
`takes_recordMembers`). Every part has at least one byte
(`length_rowBytes`), so that the fuel of a reader, which is the length of
its input, is enough for all of them.

The members of a record are read one by one into the fields gathered so
far (`Gathers`); a proof about a record lists its members in the order in
which they are written. `Reads.read?_render` is the result for whole
documents, compact or not.
-/
import TraceFlow.Json.Shape
import TraceFlow.Proofs.Json.Reader

namespace TraceFlow.Json.Reader

open Utf8

variable {α β κ σ : Type} {r : Reader α} {a : α} {xs ys ws : List UInt8} {w : Spacing} {level : Nat}
  {first : Bool}

/-! ## Documents -/

theorem ne_of_isDigit {b c : UInt8} (hb : isDigit b = true) (hc : isDigit c = false) : b ≠ c := by
  rintro rfl
  rw [hb] at hc
  cases hc

theorem isSpace_of_isDigit {b : UInt8} (hb : isDigit b = true) : Cursor.isSpace b = false := by
  simp only [Cursor.isSpace, Bool.or_eq_false_iff, decide_eq_false_iff_not]
  exact ⟨⟨⟨ne_of_isDigit hb rfl, ne_of_isDigit hb rfl⟩, ne_of_isDigit hb rfl⟩, ne_of_isDigit hb rfl⟩

/-- The bytes of a document at a level. -/
def written (w : Spacing) (level : Nat) (j : Json) : List UInt8 := ofChars (j.render w level)

/-- A document begins with no space and no end of a sequence, and with an n only if it is none. -/
theorem exists_head (w : Spacing) (level : Nat) (j : Json) : ∃ b bs, written w level j = b :: bs ∧
    Cursor.isSpace b = false ∧ b ≠ 0x5D ∧ (b = 0x6E → j = .null) := by
  cases j with
  | null => exact ⟨0x6E, ascii "ull", rfl, rfl, by decide, fun _ => rfl⟩
  | bool b =>
    cases b with
    | true => exact ⟨0x74, ascii "rue", rfl, rfl, by decide, fun h => by cases h⟩
    | false => exact ⟨0x66, ascii "alse", rfl, rfl, by decide, fun h => by cases h⟩
  | number n =>
    obtain ⟨first, others, heq, h⟩ := exists_decimal n
    have hdigit := h.digits.1
    exact ⟨first, others, heq, isSpace_of_isDigit hdigit, ne_of_isDigit hdigit rfl,
      fun hn => absurd hn (ne_of_isDigit hdigit rfl)⟩
  | string s => exact ⟨0x22, _, rfl, rfl, by decide, fun h => by cases h⟩
  | array items => exact ⟨0x5B, _, rfl, rfl, by decide, fun h => by cases h⟩
  | object members => exact ⟨0x7B, _, rfl, rfl, by decide, fun h => by cases h⟩

theorem written_ne_nil (w : Spacing) (level : Nat) (j : Json) : written w level j ≠ [] := by
  obtain ⟨b, bs, heq, -⟩ := exists_head w level j
  exact heq ▸ List.cons_ne_nil b bs

/-- The bytes begin with neither white space nor the end of a sequence. -/
def BeginsItem (xs : List UInt8) : Prop :=
  ∃ b bs, xs = b :: bs ∧ Cursor.isSpace b = false ∧ b ≠ 0x5D

theorem beginsItem_written (w : Spacing) (level : Nat) (j : Json) (ys : List UInt8) :
    BeginsItem (written w level j ++ ys) := by
  obtain ⟨b, bs, heq, hspace, hend, -⟩ := exists_head w level j
  exact ⟨b, bs ++ ys, by rw [heq]; rfl, hspace, hend⟩

theorem BeginsItem.head (h : BeginsItem xs) : ∀ b ∈ xs.head?, Cursor.isSpace b = false := by
  obtain ⟨b, bs, rfl, hb, -⟩ := h
  simpa using hb

/-! ## White space in bytes -/

theorem isSpace_ofChars {cs : List Char} (h : ∀ c ∈ cs, c = '\n' ∨ c = ' ') :
    ∀ b ∈ ofChars cs, Cursor.isSpace b := by
  intro b hb
  obtain ⟨c, hc, hb⟩ := List.mem_flatMap.1 hb
  rcases h c hc with rfl | rfl
  · obtain rfl : b = 10 := List.mem_singleton.1 hb
    rfl
  · obtain rfl : b = 32 := List.mem_singleton.1 hb
    rfl

theorem isSpace_lineBreak (w : Spacing) (level : Nat) :
    ∀ b ∈ ofChars (w.lineBreak level), Cursor.isSpace b :=
  isSpace_ofChars (w.blank_lineBreak level)

theorem isSpace_behind (w : Spacing) (level : Nat) (first : Bool) :
    ∀ b ∈ ofChars (w.behind level first), Cursor.isSpace b := by
  cases first with
  | true => exact fun _ hb => absurd hb List.not_mem_nil
  | false => exact isSpace_lineBreak w level

/-- White space ends a number, or leaves it to what stands behind. -/
theorem quits_blanks (hws : ∀ b ∈ ws, Cursor.isSpace b) (h : Quits ys) : Quits (ws ++ ys) := by
  cases ws with
  | nil => exact h
  | cons b bs =>
    have hb := hws b List.mem_cons_self
    simp only [Cursor.isSpace, Bool.or_eq_true, decide_eq_true_eq] at hb
    rcases hb with ((rfl | rfl) | rfl) | rfl <;> exact quits_cons (by decide) _

/-- A reader looks past white space, and reads a document with any spacing at any level as `a`,
whatever ends it. -/
structure Reads (r : Reader α) (j : Json) (a : α) : Prop where
  skips : Skips r
  takes : ∀ w level ys, Quits ys → Takes r (written w level j ++ ys) ys a

namespace Reads

theorem map {g : α → β} {j : Json} (h : Reads r j a) : Reads (g <$> r) j (g a) :=
  ⟨h.skips.map, fun w level ys hys => (h.takes w level ys hys).map⟩

/-- The value of a member is read from behind the gap. -/
theorem takes_gap {j : Json} (h : Reads r j a) (w : Spacing) (level : Nat) (hys : Quits ys) :
    Takes r (ofChars w.gap ++ (written w level j ++ ys)) ys a :=
  (h.takes w level ys hys).blanks h.skips (beginsItem_written w level j ys).head
    (isSpace_ofChars w.blank_gap)

theorem bool (b : Bool) : Reads Reader.bool (.bool b) b := by
  refine ⟨(Skips.start.bind _).placed, fun w level ys _ => .placed ?_⟩
  cases b with
  | true =>
    refine (takes_start (b := 0x74) rfl).bind ?_
    exact (takes_drop _ _).bind ((takes_word (ascii "rue") ys).bind (.pure _ _))
  | false =>
    refine (takes_start (b := 0x66) rfl).bind ?_
    exact (takes_drop _ _).bind ((takes_word (ascii "alse") ys).bind (.pure _ _))

theorem natural {n bound : Nat} (hn : n < bound) (hbound : bound ≤ wordSize 64)
    (expected : String) : Reads (Reader.natural bound expected) (.number n) n := by
  refine ⟨(Skips.start.bind _).placed, fun w level ys hys => ?_⟩
  have hnumber := takes_number (Nat.lt_of_lt_of_le hn hbound) hys
  obtain ⟨first, others, heq, h⟩ := exists_decimal n
  show Takes _ (decimal n ++ ys) ys n
  rw [heq] at hnumber ⊢
  have hdigit := h.digits.1
  refine .placed ((takes_start (isSpace_of_isDigit hdigit)).bind ?_)
  simp only [ne_of_isDigit hdigit (show isDigit 0x2D = false from rfl), hdigit, or_true, if_true,
    if_false]
  refine hnumber.bind ?_
  simp only [hn, if_true]
  exact .pure _ _

theorem stringFor (expected s : String) : Reads (Reader.stringFor expected) (.string s) s := by
  refine ⟨(Skips.start.bind _).placed, fun w level ys _ => ?_⟩
  show Takes _ (ofChars (quote s) ++ ys) ys s
  rw [ofChars_quote]
  refine .placed ((takes_start rfl).bind ?_)
  exact (takes_drop _ _).bind (takes_stringBody s ys)

theorem string (s : String) : Reads Reader.string (.string s) s := stringFor _ s

/-- A value that may be missing is there unless it is written as none. -/
theorem present {j : Json} (h : Reads r j a) (hnull : j ≠ .null) :
    Reads (Reader.option r) j (some a) := by
  refine ⟨Skips.space.bind _, fun w level ys hys => ?_⟩
  obtain ⟨b, bs, heq, hspace, -, hnone⟩ := exists_head w level j
  have htakes := h.takes w level ys hys
  rw [heq] at htakes ⊢
  refine (takes_space_cons hspace _).bind ?_
  rw [if_neg fun hb => hnull (hnone (Option.some.inj hb))]
  exact htakes.map

theorem option {doc : α → Json} {o : Option α}
    (h : ∀ a ∈ o, Reads r (doc a) a ∧ doc a ≠ .null) :
    Reads (Reader.option r) (.ofOption doc o) o := by
  cases o with
  | none =>
    refine ⟨Skips.space.bind _, fun w level ys _ => ?_⟩
    refine (takes_space_cons (b := 0x6E) rfl (ascii "ull" ++ ys)).bind ?_
    exact (takes_drop _ _).bind ((takes_word (ascii "ull") ys).bind (.pure _ _))
  | some a => exact (h a rfl).1.present (h a rfl).2

end Reads

/-! ## Parts in a row -/

section

variable {close : UInt8}

/-- The bytes of parts in a row, up to the byte that closes it. -/
def rowBytes (w : Spacing) (level : Nat) (close : UInt8) (first : Bool) :
    List (List UInt8) → List UInt8
  | [] => ofChars (w.behind level first) ++ [close]
  | part :: parts => ofChars (w.before level first) ++ (part ++ rowBytes w level close false parts)

theorem rowBytes_nil_append (ys : List UInt8) :
    rowBytes w level close first [] ++ ys = ofChars (w.behind level first) ++ close :: ys := by
  rw [rowBytes, List.append_assoc]
  rfl

theorem rowBytes_cons_append (part : List UInt8) (parts : List (List UInt8)) (ys : List UInt8) :
    rowBytes w level close first (part :: parts) ++ ys =
      ofChars (w.before level first) ++ (part ++ (rowBytes w level close false parts ++ ys)) := by
  rw [rowBytes, List.append_assoc, List.append_assoc]

/-- What stands behind a part ends a number. -/
theorem quits_rowBytes (w : Spacing) (level : Nat) (parts : List (List UInt8))
    (hclose : Quits (close :: ys)) : Quits (rowBytes w level close false parts ++ ys) := by
  cases parts with
  | nil =>
    rw [rowBytes_nil_append]
    exact quits_blanks (isSpace_behind w level false) hclose
  | cons => exact quits_cons (b := 0x2C) (by decide) _

/-- A row has more bytes than parts. -/
theorem length_rowBytes {ι : Type} {part : ι → List UInt8} (hpart : ∀ i, part i ≠ [])
    (w : Spacing) (level : Nat) (close : UInt8) (first : Bool) (is : List ι) (ys : List UInt8) :
    is.length < (rowBytes w level close first (is.map part) ++ ys).length := by
  induction is generalizing first with
  | nil =>
    rw [List.map_nil, rowBytes_nil_append, List.length_append]
    exact Nat.lt_add_left _ (Nat.zero_lt_succ _)
  | cons i is ih =>
    have hpos := List.length_pos_iff.2 (hpart i)
    have hrest := ih false
    rw [List.map_cons, rowBytes_cons_append]
    simp only [List.length_cons, List.length_append] at hrest ⊢
    omega

end

/-! ## Sequences -/

section

variable {item : Reader α} {doc : α → Json}

/-- What stands before an item says that one follows. -/
theorem takes_moreItems (w : Spacing) (level : Nat) (first : Bool) (h : BeginsItem xs) :
    Takes (moreItems first) (ofChars (w.before level first) ++ xs) xs true := by
  have hspace := takes_space_blanks h.head (isSpace_lineBreak w (level + 1))
  obtain ⟨b, bs, rfl, -, hend⟩ := h
  cases first with
  | true =>
    refine hspace.bind ?_
    split
    · rename_i heq
      cases heq
    · rename_i heq
      exact absurd (Option.some.inj heq) hend
    · exact .pure _ _
  | false =>
    refine (takes_space_cons (b := 0x2C) rfl _).bind ((takes_drop 0x2C _).bind (hspace.bind ?_))
    split
    · rename_i heq
      exact absurd (Option.some.inj heq) hend
    · exact .pure _ _
    · rename_i heq
      cases heq

theorem takes_moreItems_end (w : Spacing) (level : Nat) (first : Bool) (ys : List UInt8) :
    Takes (moreItems first) (ofChars (w.behind level first) ++ 0x5D :: ys) (0x5D :: ys) false :=
  (takes_space_blanks (by simp; decide) (isSpace_behind w level first)).bind (.pure _ _)

theorem takes_endItems (ys : List UInt8) : Takes endItems (0x5D :: ys) ys () :=
  (takes_space_cons (b := 0x5D) rfl ys).bind (takes_drop _ _)

theorem ofChars_renderItems (w : Spacing) (level : Nat) (first : Bool) (js : List Json) :
    ofChars (renderItems w level first js) =
      rowBytes w level 0x5D first (js.map (written w (level + 1))) := by
  induction js generalizing first with
  | nil =>
    rw [renderItems, ofChars_append]
    rfl
  | cons j js ih =>
    rw [renderItems, ofChars_append, ofChars_append, ih false]
    rfl

theorem written_array (w : Spacing) (level : Nat) (js : List Json) :
    written w level (.array js) =
      0x5B :: rowBytes w level 0x5D true (js.map (written w (level + 1))) :=
  congrArg (0x5B :: ·) (ofChars_renderItems w level true js)

/-- Items are read up to the end of their sequence. -/
theorem takes_items {as : List α} (has : ∀ a ∈ as, Reads item (doc a) a) (first : Bool) {n : Nat}
    (hn : as.length < n) :
    Takes (items item n first)
      (rowBytes w level 0x5D first ((as.map doc).map (written w (level + 1))) ++ ys) (0x5D :: ys)
      as := by
  induction as generalizing n first with
  | nil =>
    obtain ⟨n, rfl⟩ := Nat.exists_eq_add_one_of_ne_zero (Nat.ne_of_gt hn)
    rw [List.map_nil, List.map_nil, rowBytes_nil_append]
    unfold items
    exact (takes_moreItems_end w level first ys).bind (.pure _ _)
  | cons a as ih =>
    obtain ⟨n, rfl⟩ := Nat.exists_eq_add_one_of_ne_zero (Nat.ne_of_gt (Nat.zero_lt_of_lt hn))
    obtain ⟨ha, has⟩ := List.forall_mem_cons.1 has
    rw [List.map_cons, List.map_cons, rowBytes_cons_append]
    unfold items
    refine (takes_moreItems w level first (beginsItem_written w _ (doc a) _)).bind ?_
    refine (ha.takes w _ _ (quits_rowBytes w level _ (quits_cons (by decide) ys))).bind ?_
    exact (ih has false (Nat.lt_of_succ_lt_succ hn)).bind (.pure _ _)

theorem Reads.array {as : List α} (has : ∀ a ∈ as, Reads item (doc a) a) :
    Reads (Reader.array item) (.ofList doc as) as := by
  refine ⟨(Skips.start.bind _).placed, fun w level ys _ => .placed ?_⟩
  have hlength := length_rowBytes (written_ne_nil w (level + 1)) w level 0x5D true (as.map doc) ys
  rw [List.length_map] at hlength
  rw [Json.ofList, written_array]
  refine (takes_start (b := 0x5B) rfl).bind ((takes_drop _ _).bind ?_)
  refine .closing ((takes_fuel _).bind ?_) (takes_endItems ys)
  exact takes_items has true (Nat.lt_succ_of_lt hlength)

end

/-! ## Objects -/

/-- The bytes of a member: its name between quotes, a colon, its value. -/
def memberBytes (w : Spacing) (level : Nat) (m : String × Json) : List UInt8 :=
  ofChars (quote m.1) ++ 0x3A :: (ofChars w.gap ++ written w level m.2)

theorem memberBytes_append (m : String × Json) (ys : List UInt8) :
    memberBytes w level m ++ ys =
      ofChars (quote m.1) ++ 0x3A :: (ofChars w.gap ++ (written w level m.2 ++ ys)) := by
  rw [memberBytes, List.append_assoc, List.cons_append, List.append_assoc]

theorem isSpace_head_memberBytes (w : Spacing) (level : Nat) (m : String × Json)
    (ys : List UInt8) : ∀ b ∈ (memberBytes w level m ++ ys).head?, Cursor.isSpace b = false := by
  intro b hb
  obtain rfl : 0x22 = b := Option.some.inj hb
  rfl

theorem memberBytes_ne_nil (w : Spacing) (level : Nat) (m : String × Json) :
    memberBytes w level m ≠ [] := by
  rw [memberBytes, ofChars_quote]
  exact List.cons_ne_nil _ _

/-- What stands before a member says that one follows. -/
theorem takes_moreMembers (w : Spacing) (level : Nat) (first : Bool) (m : String × Json)
    (ys : List UInt8) :
    Takes (moreMembers first) (ofChars (w.before level first) ++
      (memberBytes w (level + 1) m ++ ys)) (memberBytes w (level + 1) m ++ ys) true := by
  have hspace := takes_space_blanks (isSpace_head_memberBytes w (level + 1) m ys)
    (isSpace_lineBreak w (level + 1))
  cases first with
  | true => exact hspace.bind (.pure _ _)
  | false =>
    refine (takes_space_cons (b := 0x2C) rfl _).bind ((takes_drop 0x2C _).bind ?_)
    exact hspace.bind (.pure _ _)

theorem takes_moreMembers_end (w : Spacing) (level : Nat) (first : Bool) (ys : List UInt8) :
    Takes (moreMembers first) (ofChars (w.behind level first) ++ 0x7D :: ys) (0x7D :: ys) false :=
  (takes_space_blanks (by simp; decide) (isSpace_behind w level first)).bind (.pure _ _)

theorem takes_endMembers (ys : List UInt8) : Takes endMembers (0x7D :: ys) ys () :=
  (takes_space_cons (b := 0x7D) rfl ys).bind (takes_drop _ _)

theorem takes_colon (ys : List UInt8) : Takes colon (0x3A :: ys) ys () :=
  (takes_space_cons (b := 0x3A) rfl ys).bind (takes_drop _ _)

theorem ofChars_renderMembers (w : Spacing) (level : Nat) (first : Bool)
    (ms : List (String × Json)) :
    ofChars (renderMembers w level first ms) =
      rowBytes w level 0x7D first (ms.map (memberBytes w (level + 1))) := by
  induction ms generalizing first with
  | nil =>
    rw [renderMembers, ofChars_append]
    rfl
  | cons m ms ih =>
    rw [List.map_cons, rowBytes, ← ih false, memberBytes_append, renderMembers]
    simp only [ofChars_append, ofChars_cons]
    rfl

theorem written_object (w : Spacing) (level : Nat) (ms : List (String × Json)) :
    written w level (.object ms) =
      0x7B :: rowBytes w level 0x7D true (ms.map (memberBytes w (level + 1))) :=
  congrArg (0x7B :: ·) (ofChars_renderMembers w level true ms)

/-! ## Keys -/

theorem takes_key (s : String) (ys : List UInt8) : Takes key (ofChars (quote s) ++ ys) ys s := by
  rw [ofChars_quote]
  exact (takes_drop _ _).bind (takes_stringBody s ys)

theorem flatMap_escapeChar_toDigits (n : Nat) :
    (Nat.toDigits 10 n).flatMap Json.escapeChar = Nat.toDigits 10 n := by
  have hdigit : ∀ n : Fin 10, Json.escapeChar (Nat.digitChar n.val) = [Nat.digitChar n.val] := by
    decide
  induction n using Nat.strongRecOn with
  | ind n ih =>
    rw [Nat.toDigits_eq_if (by decide)]
    split
    · rename_i hn
      simpa using hdigit ⟨n, hn⟩
    · rw [List.flatMap_append, ih _ (by omega)]
      simpa using hdigit ⟨n % 10, Nat.mod_lt _ (by decide)⟩

theorem takes_numericKey {n bound : Nat} (hn : n < bound) (hbound : bound ≤ wordSize 64)
    (expected : String) (ys : List UInt8) :
    Takes (numericKey bound expected) (ofChars (quote (Nat.repr n)) ++ ys) ys n := by
  have hdigits : ofChars (quote (Nat.repr n)) ++ ys = 0x22 :: (decimal n ++ 0x22 :: ys) := by
    rw [ofChars_quote, Nat.repr_eq_ofList_toDigits, String.toList_ofList,
      flatMap_escapeChar_toDigits]
    rfl
  have hnumber := (Reads.natural hn hbound expected).takes .tight 0 (0x22 :: ys)
    (quits_cons (by decide) ys)
  change Takes _ (decimal n ++ 0x22 :: ys) _ _ at hnumber
  obtain ⟨first, others, heq, h⟩ := exists_decimal n
  rw [hdigits]
  rw [heq] at hnumber ⊢
  refine (takes_drop _ _).bind ((takes_look _).bind ?_)
  simp only [List.cons_append, List.head?_cons, h.digits.1, or_true, if_true]
  refine hnumber.bind ((takes_look _).bind ?_)
  simp only [List.head?_cons, if_true]
  exact (takes_drop _ _).bind (.pure _ _)

/-! ## Members of one kind -/

section

variable {key : Reader κ} {value : Reader α} {name : κ → String} {doc : α → Json}

/-- Reading the name of a member gives its key. -/
def ReadsKey (key : Reader κ) (name : κ → String) (k : κ) : Prop :=
  ∀ ys, Takes key (ofChars (quote (name k)) ++ ys) ys k

/-- Members are read up to the end of their object. -/
theorem takes_membersFrom {es : List (κ × α)}
    (hes : ∀ e ∈ es, ReadsKey key name e.1 ∧ Reads value (doc e.2) e.2) (first : Bool) {n : Nat}
    (hn : es.length < n) :
    Takes (membersFrom key value n first)
      (rowBytes w level 0x7D first
        ((es.map fun e => (name e.1, doc e.2)).map (memberBytes w (level + 1))) ++ ys)
      (0x7D :: ys) es := by
  induction es generalizing n first with
  | nil =>
    obtain ⟨n, rfl⟩ := Nat.exists_eq_add_one_of_ne_zero (Nat.ne_of_gt hn)
    rw [List.map_nil, List.map_nil, rowBytes_nil_append]
    unfold membersFrom
    exact (takes_moreMembers_end w level first ys).bind (.pure _ _)
  | cons e es ih =>
    obtain ⟨n, rfl⟩ := Nat.exists_eq_add_one_of_ne_zero (Nat.ne_of_gt (Nat.zero_lt_of_lt hn))
    obtain ⟨⟨hkey, hvalue⟩, hes⟩ := List.forall_mem_cons.1 hes
    rw [List.map_cons, List.map_cons, rowBytes_cons_append]
    unfold membersFrom
    refine (takes_moreMembers w level first _ _).bind ?_
    rw [memberBytes_append]
    refine (hkey _).bind ((takes_colon _).bind ?_)
    refine (hvalue.takes_gap w _ (quits_rowBytes w level _ (quits_cons (by decide) ys))).bind ?_
    exact (ih hes false (Nat.lt_of_succ_lt_succ hn)).bind (.pure _ _)

theorem Reads.members {es : List (κ × α)}
    (hes : ∀ e ∈ es, ReadsKey key name e.1 ∧ Reads value (doc e.2) e.2) :
    Reads (Reader.members key value) (.object (es.map fun e => (name e.1, doc e.2))) es := by
  refine ⟨(Skips.start.bind _).placed, fun w level ys _ => .placed ?_⟩
  have hlength := length_rowBytes (memberBytes_ne_nil w (level + 1)) w level 0x7D true
    (es.map fun e => (name e.1, doc e.2)) ys
  rw [List.length_map] at hlength
  rw [written_object]
  refine (takes_start (b := 0x7B) rfl).bind ((takes_drop _ _).bind ?_)
  refine .closing ((takes_fuel _).bind ?_) (takes_endMembers ys)
  exact takes_membersFrom hes true (Nat.lt_succ_of_lt hlength)

end

/-! ## Records -/

/-- Reading the members of an object one by one takes the fields gathered so far from `s` to
`s'`. -/
inductive Gathers (fields : List (RecordField σ)) : List (String × Json) → σ → σ → Prop
  | done (s : σ) : Gathers fields [] s s
  | next {name : String} {j : Json} {ms : List (String × Json)} {f : RecordField σ} {s s₁ s' : σ}
      (find : fields.find? (·.name = name) = some f) (unread : f.isRead s = false)
      (reads : Reads (f.read s) j s₁) (rest : Gathers fields ms s₁ s') :
      Gathers fields ((name, j) :: ms) s s'

/-- Members are read up to the end of their record. -/
theorem takes_recordMembers {fields : List (RecordField σ)} {ms : List (String × Json)} {s s' : σ}
    (h : Gathers fields ms s s') (first : Bool) {n : Nat} (hn : ms.length < n) :
    Takes (recordMembers fields n first s)
      (rowBytes w level 0x7D first (ms.map (memberBytes w (level + 1))) ++ ys) (0x7D :: ys)
      s' := by
  induction h generalizing n first with
  | done s =>
    obtain ⟨n, rfl⟩ := Nat.exists_eq_add_one_of_ne_zero (Nat.ne_of_gt hn)
    rw [List.map_nil, rowBytes_nil_append]
    unfold recordMembers
    exact (takes_moreMembers_end w level first ys).bind (.pure _ _)
  | @next name j ms f s s₁ s' find unread reads rest ih =>
    obtain ⟨n, rfl⟩ := Nat.exists_eq_add_one_of_ne_zero (Nat.ne_of_gt (Nat.zero_lt_of_lt hn))
    rw [List.map_cons, rowBytes_cons_append]
    unfold recordMembers
    refine (takes_moreMembers w level first _ _).bind ?_
    rw [memberBytes_append]
    refine (takes_key name _).bind ?_
    simp only [find, unread]
    refine (takes_colon _).bind ?_
    refine (reads.takes_gap w _ (quits_rowBytes w level _ (quits_cons (by decide) ys))).bind ?_
    exact ih false (Nat.lt_of_succ_lt_succ hn)

/-- A record is read from the object of its fields. -/
theorem Reads.record {r : Record σ α} {ms : List (String × Json)} {s : σ}
    (h : Gathers r.fields ms r.blank s) (hvalue : r.value s = .ok a) :
    Reads (Reader.record r) (.object ms) a := by
  refine ⟨(Skips.start.bind _).placed, fun w level ys _ => .placed ?_⟩
  have hlength := length_rowBytes (memberBytes_ne_nil w (level + 1)) w level 0x7D true ms ys
  rw [written_object]
  have hend : Takes (recordValue r s) (0x7D :: ys) (0x7D :: ys) a := by
    unfold recordValue
    rw [hvalue]
    exact .pure _ _
  refine (takes_start (b := 0x7B) rfl).bind ((takes_drop _ _).bind ?_)
  refine .closing ((takes_fuel _).bind (.bind ?_ hend)) (takes_endMembers ys)
  exact takes_recordMembers h true (Nat.lt_succ_of_lt hlength)

/-! ## Alternatives -/

section

variable {choices : List (Choice α)} {c : Choice α} {name : String}

theorem takes_chosen (find : choices.find? (·.name = name) = some c) (hys : Quits ys) :
    Takes (chosen choices) (ofChars (quote name) ++ ys) ys c := by
  have hname := (Reads.stringFor "variant identifier" name).takes .tight 0 ys hys
  refine .placed (hname.bind ?_)
  simp only [find]
  exact .pure _ _

/-- An alternative that is nothing but its name. -/
theorem Reads.choice_bare (find : choices.find? (·.name = name) = some c)
    (h : ∀ ys, Takes c.bare ys ys a) : Reads (choice choices) (.string name) a := by
  refine ⟨Skips.space.bind _, fun w level ys hys => ?_⟩
  have hchosen := takes_chosen find hys
  show Takes _ (ofChars (quote name) ++ ys) ys a
  rw [ofChars_quote] at hchosen ⊢
  exact (takes_space_cons (b := 0x22) rfl _).bind (hchosen.bind (h ys))

/-- An alternative with a value behind its name. -/
theorem Reads.choice {j : Json} (find : choices.find? (·.name = name) = some c)
    (h : Reads c.read j a) : Reads (Reader.choice choices) (.object [(name, j)]) a := by
  refine ⟨Skips.space.bind _, fun w level ys _ => ?_⟩
  have hopened : written w level (.object [(name, j)]) ++ ys =
      0x7B :: (ofChars (w.before level true) ++ (memberBytes w (level + 1) (name, j) ++
        (ofChars (w.behind level false) ++ 0x7D :: ys))) := by
    rw [written_object, List.map_cons, List.map_nil, List.cons_append, rowBytes_cons_append,
      rowBytes_nil_append]
  have hkey := takes_space_blanks (isSpace_head_memberBytes w (level + 1) (name, j)
    (ofChars (w.behind level false) ++ 0x7D :: ys)) (isSpace_lineBreak w (level + 1))
  have hchosen := takes_chosen find (quits_cons (b := 0x3A) (by decide) (ofChars w.gap ++
    (written w (level + 1) j ++ (ofChars (w.behind level false) ++ 0x7D :: ys))))
  have hvalue := h.takes_gap w (level + 1)
    (quits_blanks (isSpace_behind w level false) (quits_cons (b := 0x7D) (by decide) ys))
  have hclosed : Takes space (ofChars (w.behind level false) ++ 0x7D :: ys) (0x7D :: ys)
      (some 0x7D) := takes_space_blanks (by simp; decide) (isSpace_behind w level false)
  rw [hopened]
  refine (takes_space_cons (b := 0x7B) rfl _).bind ((takes_drop _ _).bind ?_)
  rw [memberBytes_append] at hkey ⊢
  refine (hkey.bind hchosen).bind ((takes_colon _).bind (hvalue.bind ?_))
  exact hclosed.bind ((takes_drop _ _).bind (.pure _ _))

end

/-! ## Whole documents -/

theorem Takes.run_start (h : Takes r xs [] a) : (r.run (.start xs)).run.1 = .ok a := by
  obtain ⟨c, -, hrun⟩ := h (.start xs) rfl
  exact congrArg Prod.fst hrun

/-- The text of a document, in bytes, is read, however it is spaced. -/
theorem Reads.read?_render {j : Json} (h : Reads r j a) (w : Spacing) :
    read? r (Utf8.encode (String.ofList (j.render w 0))) = .ok a := by
  have hvalue := h.takes w 0 [] nofun
  rw [List.append_nil] at hvalue
  have hend : Takes space [] [] none := takes_space nofun
  rw [encode_ofList]
  unfold read?
  refine Takes.run_start (hvalue.bind (hend.bind ?_))
  exact .pure a []

end TraceFlow.Json.Reader
