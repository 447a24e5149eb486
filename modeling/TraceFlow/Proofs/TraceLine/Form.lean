/-
TraceFlow.Proofs.TraceLine.Form — the texts of a record.

The reader of lines goes from left to right and never back. Beside it
stands the grammar that it is meant to accept: `InstructionForm` and
`MarkerForm` are relations between the digits of a record and the texts
that spell it, with any white space at every place where some may be. They
say nothing about reading.

A reader that never goes back accepts such a grammar because no choice
depends on what comes later:

* White space is skipped to its end, and no piece of a form begins with
  white space (`Keyword.dropBlanks`, `Digits.dropBlanks`). So what is
  skipped is all that the grammar has there.
* Digits are read to their end, and what comes after them begins with no
  digit: a mark, white space, or the end (`Marked.head`, `Ending.head`).
* A line may end behind the opcode or go on with an operand. The mark
  tells which (`ends_operand`).

Every piece has a statement for each direction: what the grammar spells is
read (`…_append`), and what was read is spelled. `fieldsHere?_eq_some_iff`
and `markerHere?_eq_some_iff` put them together: right at the place where
a form begins, the reader accepts the grammar and nothing else.
-/
import TraceFlow.TraceLine

namespace TraceFlow

/-! ## Classes of characters -/

namespace Text

/-- What holds of the listed characters holds of all white space. -/
theorem forall_isBlank {P : Char → Prop} (h : ∀ n ∈ blankCodePoints, P (Char.ofNat n)) (c : Char)
    (hc : isBlank c) : P c := by
  have := h c.toNat (by simpa [isBlank] using hc)
  rwa [Char.ofNat_toNat] at this

theorem isBlank_toUpper (c : Char) (hc : isBlank c) : isBlank c.toUpper :=
  forall_isBlank (P := fun c => isBlank c.toUpper) (by decide) c hc

theorem dropBlanks_append {ws cs : List Char} (hws : ∀ c ∈ ws, isBlank c) :
    dropBlanks (ws ++ cs) = dropBlanks cs := List.dropWhile_append_of_pos hws

theorem dropBlanks_eq_self {cs : List Char} (hcs : ∀ c ∈ cs.head?, isBlank c = false) :
    dropBlanks cs = cs := by
  cases cs with
  | nil => rfl
  | cons c cs => simp [dropBlanks, hcs c rfl]

/-- A text is the white space at its start and the rest. -/
theorem exists_append_dropBlanks (cs : List Char) :
    ∃ ws, (∀ c ∈ ws, isBlank c) ∧ cs = ws ++ dropBlanks cs :=
  ⟨cs.takeWhile isBlank, List.all_eq_true.1 List.all_takeWhile,
    List.takeWhile_append_dropWhile.symm⟩

end Text

namespace Hex

theorem toNat_lt_of_isDigit {c : Char} (hc : isDigit c) : c.toNat < 128 := by
  unfold isDigit value? at hc
  simp only [Char.le_def, UInt32.le_iff_toNat_le] at hc
  have h9 : ('9' : Char).val.toNat = 57 := rfl
  have hf : ('f' : Char).val.toNat = 102 := rfl
  have hF : ('F' : Char).val.toNat = 70 := rfl
  show c.val.toNat < 128
  split at hc
  · omega
  · split at hc
    · omega
    · split at hc
      · omega
      · cases hc

/-- All hex digits are among the first 128 characters. -/
theorem forall_isDigit {P : Char → Prop} (h : ∀ n < 128, isDigit (Char.ofNat n) → P (Char.ofNat n))
    (c : Char) (hc : isDigit c) : P c := by
  have := h c.toNat (toNat_lt_of_isDigit hc)
  rw [Char.ofNat_toNat] at this
  exact this hc

theorem isDigit_toUpper (c : Char) (hc : isDigit c) : isDigit c.toUpper :=
  forall_isDigit (P := fun c => isDigit c.toUpper) (by decide) c hc

theorem isDigit_of_isBlank (c : Char) (hc : Text.isBlank c) : isDigit c = false :=
  Text.forall_isBlank (P := fun c => isDigit c = false) (by decide) c hc

theorem isBlank_of_isDigit (c : Char) (hc : isDigit c) : Text.isBlank c = false := by
  cases hb : Text.isBlank c with
  | false => rfl
  | true => rw [isDigit_of_isBlank c hb] at hc; cases hc

/-- The bytes that a text of hex digits spells, two digits a byte, high half first. -/
inductive Spells : List Char → List UInt8 → Prop where
  | nil : Spells [] []
  | cons {h l : Char} {a b : Nat} {cs : List Char} {bytes : List UInt8} (high : value? h = some a)
      (low : value? l = some b) (rest : Spells cs bytes) :
      Spells (h :: l :: cs) (UInt8.ofNat (16 * a + b) :: bytes)

/-- The reader of bytes accepts the texts that spell them. -/
theorem bytes?_eq_some_iff {cs : List Char} {bytes : List UInt8} :
    bytes? cs = some bytes ↔ Spells cs bytes := by
  constructor
  · intro h
    fun_induction bytes? cs generalizing bytes with
    | case1 => cases h; exact .nil
    | case2 => cases h
    | case3 h l cs ih =>
      simp only [Option.bind_eq_bind, Option.bind_eq_some_iff, Option.pure_def,
        Option.some.injEq] at h
      obtain ⟨a, ha, b, hb, rest, hrest, rfl⟩ := h
      exact .cons ha hb (ih hrest)
  · intro h
    induction h with
    | nil => rfl
    | cons high low _ ih => simp [bytes?, high, low, ih]

end Hex

namespace TraceLine

open Text

variable {cs rest ws w ds : List Char} {mark : Char} {f : Fields}

/-! ## The grammar -/

/-- Nothing but white space. -/
def Blank (cs : List Char) : Prop := ∀ c ∈ cs, isBlank c

/-- Nothing but hex digits, of either case. -/
def Digits (cs : List Char) : Prop := ∀ c ∈ cs, Hex.isDigit c

/-- A keyword, given in upper case, with each letter in either case. -/
def Keyword (word cs : List Char) : Prop := cs.map Char.toUpper = word

/-- A mark with white space on both sides. -/
def Marked (mark : Char) (cs : List Char) : Prop :=
  ∃ before after, Blank before ∧ Blank after ∧ cs = before ++ mark :: after

/-- What may follow the opcode: an operand part or nothing, and then white space. -/
inductive Ending : Option (List Char) → List Char → Prop where
  | bare {ws : List Char} (blank : Blank ws) : Ending none ws
  | operand {bar mem colon ds ws : List Char} (bar_ok : Marked '|' bar)
      (mem_ok : Keyword ['M', 'E', 'M'] mem) (colon_ok : Marked ':' colon) (digits : Digits ds)
      (blank : Blank ws) : Ending (some ds) (bar ++ (mem ++ (colon ++ (ds ++ ws))))

/-- The texts of an instruction line, from its keyword on. -/
inductive InstructionForm : Fields → List Char → Prop where
  | intro {word colon pc bar word' colon' opcode ending : List Char}
      {operand : Option (List Char)} (word_ok : Keyword ['P', 'C'] word)
      (colon_ok : Marked ':' colon) (pc_digits : Digits pc) (pc_ne : pc ≠ [])
      (bar_ok : Marked '|' bar) (word_ok' : Keyword ['O', 'P', 'C', 'O', 'D', 'E'] word')
      (colon_ok' : Marked ':' colon') (opcode_digits : Digits opcode) (opcode_ne : opcode ≠ [])
      (ending_ok : Ending operand ending) :
      InstructionForm ⟨pc, opcode, operand⟩
        (word ++ (colon ++ (pc ++ (bar ++ (word' ++ (colon' ++ (opcode ++ ending)))))))

/-- The texts of an interrupt marker, from its keyword on. -/
inductive MarkerForm : List Char → List Char → Prop where
  | intro {word colon ds ws : List Char}
      (word_ok : Keyword ['I', 'N', 'T', 'E', 'R', 'R', 'U', 'P', 'T'] word)
      (colon_ok : Marked ':' colon) (digits : Digits ds) (digits_ne : ds ≠ []) (blank : Blank ws) :
      MarkerForm ds (word ++ (colon ++ (ds ++ ws)))

/-! ## What each piece reads -/

theorem afterKeyword?_eq_some_iff {word : List Char} :
    afterKeyword? word cs = some rest ↔ ∃ w, Keyword word w ∧ cs = w ++ rest := by
  unfold Keyword
  fun_induction afterKeyword? word cs with
  | case1 cs => simp [eq_comm]
  | case2 k ks =>
    simp only [reduceCtorEq, false_iff, not_exists, not_and]
    intro w hw heq
    rw [(List.nil_eq_append_iff.1 heq).1] at hw
    cases hw
  | case3 ks c cs ih =>
    rw [ih]
    constructor
    · rintro ⟨w, hw, rfl⟩
      exact ⟨c :: w, by rw [List.map_cons, hw], rfl⟩
    · rintro ⟨w, hw, heq⟩
      cases w with
      | nil => cases hw
      | cons c' w =>
        obtain ⟨rfl, rfl⟩ := List.cons.inj heq
        exact ⟨w, (List.cons.inj hw).2, rfl⟩
  | case4 k ks c cs hc =>
    simp only [reduceCtorEq, false_iff, not_exists, not_and]
    intro w hw heq
    cases w with
    | nil => cases hw
    | cons c' w =>
      obtain ⟨rfl, rfl⟩ := List.cons.inj heq
      exact hc (List.cons.inj hw).1

theorem afterKeyword?_append {word : List Char} (h : Keyword word w) (rest : List Char) :
    afterKeyword? word (w ++ rest) = some rest :=
  afterKeyword?_eq_some_iff.2 ⟨w, h, rfl⟩

/-- A mark is read with the white space on both sides. -/
theorem afterMark?_append (hmark : isBlank mark = false) (h : Marked mark w) (rest : List Char) :
    afterMark? mark (w ++ rest) = some (dropBlanks rest) := by
  obtain ⟨before, after, hbefore, hafter, rfl⟩ := h
  have hdrop : dropBlanks (before ++ mark :: (after ++ rest)) = mark :: (after ++ rest) := by
    rw [dropBlanks_append hbefore, dropBlanks_eq_self fun c hc => ?_]
    obtain rfl : mark = c := by simpa using hc
    exact hmark
  unfold afterMark?
  rw [List.append_assoc, List.cons_append, hdrop]
  simp only [if_true]
  rw [dropBlanks_append hafter]

theorem marked_of_afterMark? (h : afterMark? mark cs = some rest) :
    ∃ w, Marked mark w ∧ cs = w ++ rest := by
  obtain ⟨before, hbefore, hcs⟩ := exists_append_dropBlanks cs
  unfold afterMark? at h
  split at h
  · cases h
  · rename_i c tail htail
    split at h
    · rename_i hc
      subst hc
      obtain rfl := Option.some.inj h
      obtain ⟨after, hafter, heq⟩ := exists_append_dropBlanks tail
      refine ⟨before ++ c :: after, ⟨before, after, hbefore, hafter, rfl⟩, ?_⟩
      rw [hcs, htail, List.append_assoc, List.cons_append, ← heq]
    · cases h

theorem digits_append (hds : Digits ds) (hrest : ∀ c ∈ rest.head?, Hex.isDigit c = false) :
    digits (ds ++ rest) = (ds, rest) := by
  unfold digits
  rw [List.takeWhile_append_of_pos hds, List.dropWhile_append_of_pos hds]
  cases rest with
  | nil => simp
  | cons c rest => simp [hrest c rfl]

theorem digits_eq (cs : List Char) :
    Digits (digits cs).1 ∧ cs = (digits cs).1 ++ (digits cs).2 :=
  ⟨List.all_eq_true.1 List.all_takeWhile, List.takeWhile_append_dropWhile.symm⟩

theorem digits?_append (hds : Digits ds) (hne : ds ≠ [])
    (hrest : ∀ c ∈ rest.head?, Hex.isDigit c = false) : digits? (ds ++ rest) = some (ds, rest) := by
  unfold digits?
  rw [digits_append hds hrest]
  cases ds with
  | nil => exact absurd rfl hne
  | cons d ds => rfl

theorem digits_of_digits? (h : digits? cs = some (ds, rest)) :
    Digits ds ∧ ds ≠ [] ∧ cs = ds ++ rest := by
  unfold digits? at h
  split at h
  · cases h
  · rename_i hne
    obtain ⟨hds, hcs⟩ := digits_eq cs
    rw [Option.some.inj h] at hds hcs
    refine ⟨hds, fun hnil => ?_, hcs⟩
    rw [hnil] at h hcs
    exact hne rest (Option.some.inj h)

/-- A line ends where nothing but white space is left. -/
theorem ends_iff : ends cs = true ↔ Blank cs := by
  unfold ends Blank dropBlanks
  rw [List.isEmpty_iff]
  induction cs with
  | nil => simp
  | cons c cs ih => by_cases hc : isBlank c <;> simp [hc, ih]

/-! ## What the pieces begin with -/

theorem Keyword.head {k : Char} {ks : List Char} (h : Keyword (k :: ks) w) :
    ∃ c tail, w = c :: tail ∧ c.toUpper = k := by
  cases w with
  | nil => cases h
  | cons c tail => exact ⟨c, tail, rfl, (List.cons.inj h).1⟩

/-- White space before a keyword is no part of it. -/
theorem Keyword.dropBlanks {k : Char} {ks : List Char} (h : Keyword (k :: ks) w)
    (hk : isBlank k = false) (rest : List Char) : dropBlanks (w ++ rest) = w ++ rest := by
  obtain ⟨c, tail, rfl, hc⟩ := h.head
  refine dropBlanks_eq_self fun c' hc' => ?_
  obtain rfl : c = c' := by simpa using hc'
  cases hblank : isBlank c with
  | false => rfl
  | true =>
    have := isBlank_toUpper c hblank
    rw [hc, hk] at this
    cases this

theorem Digits.dropBlanks (h : Digits ds) (hne : ds ≠ []) (rest : List Char) :
    dropBlanks (ds ++ rest) = ds ++ rest := by
  cases ds with
  | nil => exact absurd rfl hne
  | cons d ds =>
    refine dropBlanks_eq_self fun c hc => ?_
    obtain rfl : d = c := by simpa using hc
    exact Hex.isBlank_of_isDigit d (h d List.mem_cons_self)

theorem Blank.head (h : Blank ws) : ∀ c ∈ ws.head?, Hex.isDigit c = false := by
  intro c hc
  exact Hex.isDigit_of_isBlank c (h c (List.mem_of_mem_head? hc))

/-- A bar ends the digits before it. -/
theorem Marked.head (h : Marked '|' w) (rest : List Char) :
    ∀ c ∈ (w ++ rest).head?, Hex.isDigit c = false := by
  obtain ⟨before, after, hbefore, -, rfl⟩ := h
  cases before with
  | nil =>
    intro c hc
    obtain rfl : '|' = c := by simpa using hc
    decide
  | cons b before =>
    intro c hc
    obtain rfl : b = c := by simpa using hc
    exact Hex.isDigit_of_isBlank b (hbefore b List.mem_cons_self)

theorem Ending.head {operand : Option (List Char)} (h : Ending operand cs) :
    ∀ c ∈ cs.head?, Hex.isDigit c = false := by
  cases h with
  | bare blank => exact blank.head
  | operand bar_ok => exact bar_ok.head _

/-! ## The forms, where they begin -/

/-- Only a text of white space ends a line: an operand part has a bar. -/
theorem ends_operand (h : Marked '|' w) (rest : List Char) : ends (w ++ rest) = false := by
  obtain ⟨before, after, -, -, rfl⟩ := h
  rw [← Bool.not_eq_true, ends_iff]
  intro hblank
  have := hblank '|' (by simp)
  exact absurd this (by decide)

/-- What comes behind the opcode is read as the grammar has it. -/
theorem operandPart?_eq_some_iff : operandPart? cs = some ds ↔ Ending (some ds) cs := by
  unfold operandPart?
  constructor
  · intro h
    simp only [Option.bind_eq_bind, Option.bind_eq_some_iff, Option.ite_none_right_eq_some,
      Option.some.injEq] at h
    obtain ⟨cs₁, hbar, cs₂, hmem, cs₃, hcolon, hends, hds⟩ := h
    obtain ⟨bar, bar_ok, rfl⟩ := marked_of_afterMark? hbar
    obtain ⟨mem, mem_ok, rfl⟩ := afterKeyword?_eq_some_iff.1 hmem
    obtain ⟨colon, colon_ok, rfl⟩ := marked_of_afterMark? hcolon
    obtain ⟨hdigits, hcs⟩ := digits_eq cs₃
    rw [hcs, hds]
    rw [hds] at hdigits
    exact .operand bar_ok mem_ok colon_ok hdigits (ends_iff.1 hends)
  · intro h
    cases h with
    | @operand bar mem colon _ ws bar_ok mem_ok colon_ok hdigits blank =>
      -- after the colon the reader drops white space, and so the last run with it when the operand
      -- is empty
      obtain ⟨ws', hws', hread⟩ : ∃ ws', Blank ws' ∧
          digits (Text.dropBlanks (ds ++ ws)) = (ds, ws') := by
        cases ds with
        | nil =>
          refine ⟨[], by simp [Blank], ?_⟩
          have : Text.dropBlanks ws = [] := List.isEmpty_iff.1 (ends_iff.2 blank)
          rw [List.nil_append, this]
          rfl
        | cons d ds =>
          rw [hdigits.dropBlanks (List.cons_ne_nil _ _), digits_append hdigits blank.head]
          exact ⟨ws, blank, rfl⟩
      simp only [Option.bind_eq_bind, afterMark?_append (by decide) bar_ok,
        mem_ok.dropBlanks (by decide), afterKeyword?_append mem_ok,
        afterMark?_append (by decide) colon_ok, Option.bind_some, hread, ends_iff.2 hws', if_true]

/-- The reader of instruction lines accepts their grammar, and nothing else. -/
theorem fieldsHere?_eq_some_iff : fieldsHere? cs = some f ↔ InstructionForm f cs := by
  unfold fieldsHere?
  constructor
  · intro h
    simp only [Option.bind_eq_bind, Option.bind_eq_some_iff, Prod.exists] at h
    obtain ⟨cs₁, hword, cs₂, hcolon, pc, cs₃, hpc, cs₄, hbar, cs₅, hword', cs₆, hcolon', opcode,
      cs₇, hopcode, hend⟩ := h
    obtain ⟨word, word_ok, rfl⟩ := afterKeyword?_eq_some_iff.1 hword
    obtain ⟨colon, colon_ok, rfl⟩ := marked_of_afterMark? hcolon
    obtain ⟨pc_digits, pc_ne, rfl⟩ := digits_of_digits? hpc
    obtain ⟨bar, bar_ok, rfl⟩ := marked_of_afterMark? hbar
    obtain ⟨word', word_ok', rfl⟩ := afterKeyword?_eq_some_iff.1 hword'
    obtain ⟨colon', colon_ok', rfl⟩ := marked_of_afterMark? hcolon'
    obtain ⟨opcode_digits, opcode_ne, rfl⟩ := digits_of_digits? hopcode
    split at hend
    · rename_i hends
      obtain rfl := Option.some.inj hend
      exact .intro word_ok colon_ok pc_digits pc_ne bar_ok word_ok' colon_ok' opcode_digits
        opcode_ne (.bare (ends_iff.1 hends))
    · obtain ⟨operand, hoperand, heq⟩ := Option.bind_eq_some_iff.1 hend
      obtain rfl := Option.some.inj heq
      exact .intro word_ok colon_ok pc_digits pc_ne bar_ok word_ok' colon_ok' opcode_digits
        opcode_ne (operandPart?_eq_some_iff.1 hoperand)
  · intro h
    cases h with
    | intro word_ok colon_ok pc_digits pc_ne bar_ok word_ok' colon_ok' opcode_digits opcode_ne
        ending_ok =>
      simp only [Option.bind_eq_bind, afterKeyword?_append word_ok,
        afterMark?_append (by decide) colon_ok, pc_digits.dropBlanks pc_ne,
        digits?_append pc_digits pc_ne (bar_ok.head _), afterMark?_append (by decide) bar_ok,
        word_ok'.dropBlanks (by decide), afterKeyword?_append word_ok',
        afterMark?_append (by decide) colon_ok', opcode_digits.dropBlanks opcode_ne,
        digits?_append opcode_digits opcode_ne ending_ok.head, Option.bind_some]
      cases ending_ok with
      | bare blank => rw [if_pos (ends_iff.2 blank)]
      | operand bar_ok mem_ok colon_ok ds_digits blank =>
        rw [if_neg (by rw [ends_operand bar_ok]; decide),
          operandPart?_eq_some_iff.2 (.operand bar_ok mem_ok colon_ok ds_digits blank)]
        rfl

/-- The reader of interrupt markers accepts their grammar, and nothing else. -/
theorem markerHere?_eq_some_iff : markerHere? cs = some ds ↔ MarkerForm ds cs := by
  unfold markerHere?
  constructor
  · intro h
    simp only [Option.bind_eq_bind, Option.bind_eq_some_iff, Prod.exists,
      Option.ite_none_right_eq_some, Option.some.injEq] at h
    obtain ⟨cs₁, hword, cs₂, hcolon, id, cs₃, hid, hends, rfl⟩ := h
    obtain ⟨word, word_ok, rfl⟩ := afterKeyword?_eq_some_iff.1 hword
    obtain ⟨colon, colon_ok, rfl⟩ := marked_of_afterMark? hcolon
    obtain ⟨hdigits, hne, rfl⟩ := digits_of_digits? hid
    exact .intro word_ok colon_ok hdigits hne (ends_iff.1 hends)
  · intro h
    cases h with
    | intro word_ok colon_ok hdigits hne blank =>
      simp only [Option.bind_eq_bind, afterKeyword?_append word_ok,
        afterMark?_append (by decide) colon_ok, hdigits.dropBlanks hne,
        digits?_append hdigits hne blank.head, Option.bind_some, ends_iff.2 blank, if_true]

end TraceLine

end TraceFlow
