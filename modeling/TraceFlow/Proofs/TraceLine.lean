/-
TraceFlow.Proofs.TraceLine — which lines of a trace hold a record.

The reader of a line looks for a place at which a form begins, from left
to right, and takes the first. The statement to prove does not speak of
the first: it says which lines have a form at all, behind any text. The
two are one because a line has one such place at most.

* Which letters a form lacks is told by its pieces (`Lacks`): white space,
  digits, keywords and marks each have letters of their own.
* `InstructionForm.not_inside`, `MarkerForm.not_inside`: no form begins
  inside another one of its kind. The letter that a form begins with
  would have to occur a second time; the one P that does, in OPCODE,
  leads nowhere, since the second letter behind it is an O, and no form
  has one there (`InstructionForm.start`). All forms end with the line, so
  of two places one form lies inside the other (`form_unique`).
* So the first place that the reader finds is the only one there is
  (`firstMatch_eq_some_iff`), and no line has forms of both kinds
  (`InstructionLine.not_marker`).
* `Holds` are the records that a line holds: those that the digits of its
  form spell, within 64 bits for an address. `Fields.instruction?` and the
  reader of markers say the same of given digits.

`read_by_form` is the main statement: a line is read as what its form
spells, and as nothing when it has none.
-/
import Mathlib.Data.List.Basic
import TraceFlow.Proofs.TraceLine.Form

namespace TraceFlow.TraceLine

open Text

variable {line u u' cs cs' ws w ds ds' : List Char} {f f' : Fields} {k mark : Char}

/-! ## Letters that do not occur -/

/-- A letter, given in upper case, does not occur in either case. -/
def Lacks (k : Char) (cs : List Char) : Prop := k ∉ cs.map Char.toUpper

theorem lacks_append : Lacks k (cs ++ cs') ↔ Lacks k cs ∧ Lacks k cs' := by
  unfold Lacks
  rw [List.map_append, List.mem_append, not_or]

theorem lacks_cons {c : Char} : Lacks k (c :: cs) ↔ k ≠ c.toUpper ∧ Lacks k cs := by
  unfold Lacks
  rw [List.map_cons, List.mem_cons, not_or]

theorem Lacks.not_mem {c : Char} (h : Lacks k cs) (hc : c.toUpper = k) : c ∉ cs :=
  fun hmem => h (List.mem_map.2 ⟨c, hmem, hc⟩)

theorem Blank.lacks (h : Blank ws) (hk : isBlank k = false) : Lacks k ws := by
  intro hmem
  obtain ⟨c, hc, rfl⟩ := List.mem_map.1 hmem
  rw [isBlank_toUpper c (h c hc)] at hk
  cases hk

theorem Digits.lacks (h : Digits ds) (hk : Hex.isDigit k = false) : Lacks k ds := by
  intro hmem
  obtain ⟨c, hc, rfl⟩ := List.mem_map.1 hmem
  rw [Hex.isDigit_toUpper c (h c hc)] at hk
  cases hk

theorem Keyword.lacks {word : List Char} (h : Keyword word w) (hk : k ∉ word) : Lacks k w := by
  unfold Lacks
  rwa [h]

theorem Marked.lacks (h : Marked mark w) (hk : isBlank k = false) (hmark : k ≠ mark.toUpper) :
    Lacks k w := by
  obtain ⟨before, after, hbefore, hafter, rfl⟩ := h
  rw [lacks_append, lacks_cons]
  exact ⟨hbefore.lacks hk, hmark, hafter.lacks hk⟩

/-- A letter that is neither a digit nor in the keyword of the operand part does not follow the
opcode. -/
theorem Ending.lacks {operand : Option (List Char)} (h : Ending operand cs)
    (hblank : isBlank k = false) (hdigit : Hex.isDigit k = false) (hbar : k ≠ ('|' : Char).toUpper)
    (hcolon : k ≠ (':' : Char).toUpper) (hmem : k ∉ ['M', 'E', 'M']) : Lacks k cs := by
  cases h with
  | bare blank => exact blank.lacks hblank
  | operand bar_ok mem_ok colon_ok digits blank =>
    simp only [lacks_append]
    exact ⟨bar_ok.lacks hblank hbar, mem_ok.lacks hmem, colon_ok.lacks hblank hcolon,
      digits.lacks hdigit, blank.lacks hblank⟩

/-! ## No form inside another -/

/-- The letters P of an instruction line: the one that it begins with, and one in OPCODE with a C
and an O behind it. -/
theorem InstructionForm.letters (h : InstructionForm f cs) :
    ∃ p before p' c o after, cs = p :: (before ++ p' :: c :: o :: after) ∧ p.toUpper = 'P' ∧
      Lacks 'P' before ∧ Lacks 'P' (c :: o :: after) ∧ o.toUpper = 'O' := by
  cases h with
  | @intro word colon pc bar word' colon' opcode ending operand word_ok colon_ok pc_digits pc_ne
      bar_ok word_ok' colon_ok' opcode_digits opcode_ne ending_ok =>
    obtain ⟨p, c₀, rfl, hp, hc₀⟩ : ∃ p c₀, word = [p, c₀] ∧ p.toUpper = 'P' ∧ c₀.toUpper = 'C' := by
      simpa [Keyword, List.map_eq_cons_iff, and_assoc] using word_ok
    obtain ⟨o₀, p', c, o, d, e, rfl, ho₀, -, hc, ho, hd, he⟩ : ∃ o₀ p' c o d e,
        word' = [o₀, p', c, o, d, e] ∧ o₀.toUpper = 'O' ∧ p'.toUpper = 'P' ∧ c.toUpper = 'C' ∧
          o.toUpper = 'O' ∧ d.toUpper = 'D' ∧ e.toUpper = 'E' := by
      simpa [Keyword, List.map_eq_cons_iff, and_assoc] using word_ok'
    refine ⟨p, c₀ :: (colon ++ (pc ++ (bar ++ [o₀]))), p', c, o,
      d :: e :: (colon' ++ (opcode ++ ending)), by simp, hp, ?_, ?_, ho⟩
    · simp only [lacks_cons, lacks_append, hc₀, ho₀]
      exact ⟨by decide, colon_ok.lacks (by decide) (by decide), pc_digits.lacks (by decide),
        bar_ok.lacks (by decide) (by decide), by decide, by simp [Lacks]⟩
    · simp only [lacks_cons, lacks_append, hc, ho, hd, he]
      exact ⟨by decide, by decide, by decide, by decide, colon_ok'.lacks (by decide) (by decide),
        opcode_digits.lacks (by decide),
        ending_ok.lacks (by decide) (by decide) (by decide) (by decide) (by decide)⟩

/-- What an instruction line begins with: a P, another letter, and then no O. -/
theorem InstructionForm.start (h : InstructionForm f cs) :
    ∃ p c x rest, cs = p :: c :: x :: rest ∧ p.toUpper = 'P' ∧ x.toUpper ≠ 'O' := by
  cases h with
  | @intro word colon _ _ _ _ _ _ _ word_ok colon_ok =>
    obtain ⟨p, c, rfl, hp, -⟩ : ∃ p c, word = [p, c] ∧ p.toUpper = 'P' ∧ c.toUpper = 'C' := by
      simpa [Keyword, List.map_eq_cons_iff, and_assoc] using word_ok
    have hlacks := colon_ok.lacks (k := 'O') (by decide) (by decide)
    obtain ⟨before, after, -, -, rfl⟩ := colon_ok
    cases before with
    | nil => exact ⟨p, c, ':', _, rfl, hp, by decide⟩
    | cons b before => exact ⟨p, c, b, _, rfl, hp, (lacks_cons.1 hlacks).1.symm⟩

/-- No instruction line begins inside another. -/
theorem InstructionForm.not_inside (h : InstructionForm f (u ++ cs)) (h' : InstructionForm f' cs) :
    u = [] := by
  obtain ⟨p, before, p', c, o, after, hcs, -, hbefore, hafter, ho⟩ := h.letters
  obtain ⟨q, d, x, rest, rfl, hq, hx⟩ := h'.start
  cases u with
  | nil => rfl
  | cons _ u =>
    -- the P that the second line begins with is the one in OPCODE
    have htail : before ++ p' :: c :: o :: after = u ++ q :: d :: x :: rest :=
      (List.cons.inj hcs).2.symm
    rw [List.append_cons_inj_of_notMem (hbefore.not_mem hq) (hafter.not_mem hq)] at htail
    obtain ⟨-, -, heq⟩ := htail
    obtain ⟨-, heq⟩ := List.cons.inj heq
    obtain ⟨rfl, -⟩ := List.cons.inj heq
    exact absurd ho hx

/-- A marker begins with its only I, and has no O. -/
theorem MarkerForm.letters (h : MarkerForm ds cs) :
    ∃ i after, cs = i :: after ∧ i.toUpper = 'I' ∧ Lacks 'I' after ∧ Lacks 'O' cs := by
  cases h with
  | @intro word colon ds ws word_ok colon_ok digits _ blank =>
    have hO : Lacks 'O' (word ++ (colon ++ (ds ++ ws))) := by
      simp only [lacks_append]
      exact ⟨word_ok.lacks (by decide), colon_ok.lacks (by decide) (by decide),
        digits.lacks (by decide), blank.lacks (by decide)⟩
    obtain ⟨i, tail, rfl, hi⟩ := word_ok.head
    have htail : Keyword ['N', 'T', 'E', 'R', 'R', 'U', 'P', 'T'] tail := (List.cons.inj word_ok).2
    refine ⟨i, tail ++ (colon ++ (ds ++ ws)), rfl, hi, ?_, hO⟩
    simp only [lacks_append]
    exact ⟨htail.lacks (by decide), colon_ok.lacks (by decide) (by decide),
      digits.lacks (by decide), blank.lacks (by decide)⟩

/-- No marker begins inside another. -/
theorem MarkerForm.not_inside (h : MarkerForm ds (u ++ cs)) (h' : MarkerForm ds' cs) : u = [] := by
  obtain ⟨i, after, hcs, -, hafter, -⟩ := h.letters
  obtain ⟨i', after', rfl, hi', -, -⟩ := h'.letters
  cases u with
  | nil => rfl
  | cons _ u =>
    refine absurd ?_ (hafter.not_mem hi')
    rw [← (List.cons.inj hcs).2]
    exact List.mem_append_right _ List.mem_cons_self

theorem InstructionForm.lacks (h : InstructionForm f cs) : Lacks 'I' cs := by
  cases h with
  | intro word_ok colon_ok pc_digits _ bar_ok word_ok' colon_ok' opcode_digits _ ending_ok =>
    simp only [lacks_append]
    exact ⟨word_ok.lacks (by decide), colon_ok.lacks (by decide) (by decide),
      pc_digits.lacks (by decide), bar_ok.lacks (by decide) (by decide), word_ok'.lacks (by decide),
      colon_ok'.lacks (by decide) (by decide), opcode_digits.lacks (by decide),
      ending_ok.lacks (by decide) (by decide) (by decide) (by decide) (by decide)⟩

/-! ## Lines -/

/-- A line that holds an instruction: any text, and then the form. -/
def InstructionLine (u : List Char) (f : Fields) (line : List Char) : Prop :=
  ∃ cs, InstructionForm f cs ∧ line = u ++ cs

/-- A line that holds an interrupt marker: any text, and then the form. -/
def MarkerLine (u ds line : List Char) : Prop := ∃ cs, MarkerForm ds cs ∧ line = u ++ cs

/-- Two places in one line are the same when neither text begins inside the other. -/
theorem eq_of_append_eq (h : u ++ cs = u' ++ cs') (left : ∀ v, cs = v ++ cs' → v = [])
    (right : ∀ v, cs' = v ++ cs → v = []) : u = u' ∧ cs = cs' := by
  rcases List.append_eq_append_iff.1 h with ⟨v, hu, hcs⟩ | ⟨v, hu, hcs⟩
  · obtain rfl := left v hcs
    exact ⟨by rw [hu, List.append_nil], hcs⟩
  · obtain rfl := right v hcs
    exact ⟨by rw [hu, List.append_nil], hcs.symm⟩

/-- A form of which none begins inside another has one place in a line, and what a reader makes of
it there is one thing. -/
theorem form_unique {β : Type} (form : β → List Char → Prop) {read : List Char → Option β}
    {b b' : β} (reads : ∀ b cs, read cs = some b ↔ form b cs)
    (alone : ∀ b b' v cs, form b (v ++ cs) → form b' cs → v = []) (h : form b cs)
    (h' : form b' cs') (heq : u ++ cs = u' ++ cs') : u = u' ∧ b = b' := by
  obtain ⟨rfl, rfl⟩ := eq_of_append_eq heq (fun v hcs => alone b b' v cs' (hcs ▸ h) h')
    fun v hcs => alone b' b v cs (hcs ▸ h') h
  have hread := (reads b cs).2 h
  rw [(reads b' cs).2 h', Option.some.injEq] at hread
  exact ⟨rfl, hread.symm⟩

/-- The text before an instruction and its digits are those of the line. -/
theorem InstructionLine.unique (h : InstructionLine u f line) (h' : InstructionLine u' f' line) :
    u = u' ∧ f = f' := by
  obtain ⟨cs, hform, rfl⟩ := h
  obtain ⟨cs', hform', heq⟩ := h'
  exact form_unique InstructionForm (fun _ _ => fieldsHere?_eq_some_iff)
    (fun _ _ _ _ => InstructionForm.not_inside) hform hform' heq

/-- The text before a marker and its digits are those of the line. -/
theorem MarkerLine.unique (h : MarkerLine u ds line) (h' : MarkerLine u' ds' line) :
    u = u' ∧ ds = ds' := by
  obtain ⟨cs, hform, rfl⟩ := h
  obtain ⟨cs', hform', heq⟩ := h'
  exact form_unique MarkerForm (fun _ _ => markerHere?_eq_some_iff)
    (fun _ _ _ _ => MarkerForm.not_inside) hform hform' heq

/-- No line holds both: an instruction line has an O and no I, a marker an I and no O. -/
theorem InstructionLine.not_marker (h : InstructionLine u f line) : ¬MarkerLine u' ds line := by
  rintro ⟨cs', hmarker, heq⟩
  obtain ⟨cs, hform, rfl⟩ := h
  obtain ⟨i, after, rfl, hi, -, hO⟩ := hmarker.letters
  rcases List.append_eq_append_iff.1 heq with ⟨v, -, hcs⟩ | ⟨v, -, hcs⟩
  · refine absurd ?_ (hform.lacks.not_mem hi)
    rw [hcs]
    exact List.mem_append_right _ List.mem_cons_self
  · obtain ⟨p, before, p', c, o, after', rfl, -, -, -, ho⟩ := hform.letters
    refine absurd ?_ (hO.not_mem ho)
    rw [hcs]
    simp

/-! ## Records -/

/-- Where a form fits at one place of a text only, the first place where it fits is that one. -/
theorem firstMatch_eq_some_iff {β : Type} {read : List Char → Option β} {b : β}
    (alone : ∀ u cs a b, read (u ++ cs) = some a → read cs = some b → u = []) :
    firstMatch read line = some b ↔ ∃ u cs, line = u ++ cs ∧ read cs = some b := by
  constructor
  · intro h
    fun_induction firstMatch read line with
    | case1 => exact ⟨[], [], rfl, h⟩
    | case2 c cs b' hread =>
      rw [h] at hread
      exact ⟨[], c :: cs, rfl, hread⟩
    | case3 c cs hnone ih =>
      obtain ⟨u, cs', hcs, hread⟩ := ih h
      exact ⟨c :: u, cs', by rw [hcs]; rfl, hread⟩
  · rintro ⟨u, cs, rfl, hread⟩
    induction u with
    | nil =>
      cases cs with
      | nil => exact hread
      | cons c cs => rw [List.nil_append, firstMatch, hread]
    | cons c u ih =>
      rw [List.cons_append, firstMatch]
      cases hearly : read (c :: (u ++ cs)) with
      | none => exact ih
      | some a => cases alone (c :: u) cs a b hearly hread

/-- The reader of instructions finds the place where the form begins. -/
theorem firstMatch_fieldsHere?_eq_some_iff :
    firstMatch fieldsHere? line = some f ↔ ∃ u, InstructionLine u f line := by
  rw [firstMatch_eq_some_iff fun u cs f f' h h' =>
    (fieldsHere?_eq_some_iff.1 h).not_inside (fieldsHere?_eq_some_iff.1 h')]
  simp only [fieldsHere?_eq_some_iff, InstructionLine, and_comm]

/-- The reader of markers finds the place where the form begins. -/
theorem firstMatch_markerHere?_eq_some_iff :
    firstMatch markerHere? line = some ds ↔ ∃ u, MarkerLine u ds line := by
  rw [firstMatch_eq_some_iff fun u cs ds ds' h h' =>
    (markerHere?_eq_some_iff.1 h).not_inside (markerHere?_eq_some_iff.1 h')]
  simp only [markerHere?_eq_some_iff, MarkerLine, and_comm]

/-- The instruction that the digits of a line spell: an address of at most 64 bits, with any zeros
in front, opcode and operand of whole bytes, and no label. A missing operand part spells no
bytes. -/
structure Fields.Spells (f : Fields) (inst : Instruction) : Prop where
  pc : Hex.number f.pc = inst.pc
  pc_lt : inst.pc < wordSize 64
  opcode : Hex.Spells f.opcode inst.opcode
  operand : Hex.Spells (f.operand.getD []) inst.operand
  label : inst.label = none

/-- Digits are read as the instruction that they spell. -/
theorem Fields.instruction?_eq_some_iff {inst : Instruction} :
    f.instruction? = some inst ↔ f.Spells inst := by
  unfold Fields.instruction?
  simp only [Option.bind_eq_bind, Option.bind_eq_some_iff, Hex.bytes?_eq_some_iff,
    Hex.numberBelow?_eq, Option.ite_none_right_eq_some, Option.some.injEq, Option.pure_def]
  constructor
  · rintro ⟨opcode, hopcode, operand, hoperand, pc, ⟨hlt, rfl⟩, rfl⟩
    exact ⟨rfl, hlt, hopcode, hoperand, rfl⟩
  · rintro ⟨hpc, hlt, hopcode, hoperand, hlabel⟩
    obtain ⟨pc, opcode, operand, label⟩ := inst
    obtain rfl : label = none := hlabel
    obtain rfl : Hex.number f.pc = pc := hpc
    exact ⟨opcode, hopcode, operand, hoperand, _, ⟨hlt, rfl⟩, rfl⟩

/-- The records that a line holds. -/
inductive Holds (line : List Char) : TraceRecord → Prop where
  /-- The digits of an instruction line spell the instruction. -/
  | instruction {u : List Char} {f : Fields} {inst : Instruction} (form : InstructionLine u f line)
      (spells : f.Spells inst) : Holds line (.instruction inst)
  /-- The digits of a marker spell a number of at most 32 bits. -/
  | interrupt {u ds : List Char} {id : Nat} (form : MarkerLine u ds line)
      (spells : Hex.number ds = id) (lt : id < wordSize 32) : Holds line (.interrupt id)

theorem instruction?_eq_some_iff {inst : Instruction} :
    instruction? line = some inst ↔ ∃ u f, InstructionLine u f line ∧ f.Spells inst := by
  unfold instruction?
  simp only [Option.bind_eq_some_iff, firstMatch_fieldsHere?_eq_some_iff,
    Fields.instruction?_eq_some_iff]
  exact ⟨fun ⟨f, ⟨u, hu⟩, hf⟩ => ⟨u, f, hu, hf⟩, fun ⟨u, f, hu, hf⟩ => ⟨f, ⟨u, hu⟩, hf⟩⟩

theorem interrupt?_eq_some_iff {id : Nat} :
    interrupt? line = some id ↔
      ∃ u ds, MarkerLine u ds line ∧ Hex.number ds = id ∧ id < wordSize 32 := by
  unfold interrupt? markerNumber?
  simp only [Option.bind_eq_some_iff, firstMatch_markerHere?_eq_some_iff, Hex.numberBelow?_eq,
    Option.ite_none_right_eq_some, Option.some.injEq]
  constructor
  · rintro ⟨ds, ⟨u, hu⟩, hlt, rfl⟩
    exact ⟨u, ds, hu, rfl, hlt⟩
  · rintro ⟨u, ds, hu, rfl, hlt⟩
    exact ⟨ds, ⟨u, hu⟩, hlt, rfl⟩

/-- A line is read as a record exactly if it holds it. -/
theorem read?_eq_some_iff {record : TraceRecord} :
    read? line = some record ↔ Holds line record := by
  unfold read?
  constructor
  · intro h
    split at h
    · rename_i inst hinst
      obtain rfl := Option.some.inj h
      obtain ⟨u, f, hform, hspells⟩ := instruction?_eq_some_iff.1 hinst
      exact .instruction hform hspells
    · obtain ⟨id, hid, rfl⟩ := Option.map_eq_some_iff.1 h
      obtain ⟨u, ds, hform, hspells, hlt⟩ := interrupt?_eq_some_iff.1 hid
      exact .interrupt hform hspells hlt
  · intro h
    cases h with
    | instruction form spells => rw [instruction?_eq_some_iff.2 ⟨_, _, form, spells⟩]
    | interrupt form spells lt =>
      have hnone : instruction? line = none := by
        cases hinst : instruction? line with
        | none => rfl
        | some inst =>
          obtain ⟨u, f, hform, -⟩ := instruction?_eq_some_iff.1 hinst
          exact absurd form hform.not_marker
      rw [hnone, interrupt?_eq_some_iff.2 ⟨_, _, form, spells, lt⟩]
      rfl

/-- The text before the form of a line and the digits of the form are determined by the line, and
no line has both forms. -/
structure OneForm (line : List Char) : Prop where
  instruction : ∀ {u f u' f'}, InstructionLine u f line → InstructionLine u' f' line →
    u = u' ∧ f = f'
  marker : ∀ {u ds u' ds'}, MarkerLine u ds line → MarkerLine u' ds' line → u = u' ∧ ds = ds'
  apart : ∀ {u f u' ds}, InstructionLine u f line → ¬MarkerLine u' ds line

/-- **A line is read by its form**, whatever the line: as the instruction or the interrupt marker
that its digits spell, and as no record when it holds none. It does not matter which of the places
where a form may begin is tried, as no line has two. -/
theorem read_by_form (line : List Char) :
    (∀ record, read? line = some record ↔ Holds line record) ∧
      (read? line = none ↔ ∀ record, ¬Holds line record) ∧ OneForm line := by
  refine ⟨fun record => read?_eq_some_iff, ?_, InstructionLine.unique, MarkerLine.unique,
    InstructionLine.not_marker⟩
  simp only [← read?_eq_some_iff]
  exact Option.eq_none_iff_forall_ne_some

/-- A keyword and a colon come first that begin no form, then the form in mixed case with zeros in
front, white space of several kinds, and an operand part without digits. -/
theorem read_by_form_mixed :
    let line := "OPC: 7 | OPCODE: 00 pc\u2003:00000000000000000150|opCode : Cb37 | MEM :\t ".toList
    Holds line (.instruction { pc := 0x150, opcode := [0xCB, 0x37] }) ∧ OneForm line :=
  ⟨((read_by_form _).1 _).1 (by decide), (read_by_form _).2.2⟩

end TraceFlow.TraceLine
