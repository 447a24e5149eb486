/-
TraceFlow.Proofs.Mnemonic.Wording — which instruction a mnemonic stands
for.

`encoding` is what an instruction consists of: its first opcode byte and the
bytes behind it that belong to it, on the second page the byte that selects
the operation, on the first the operand bytes that the form takes. Nothing
else counts (`decode?_encoding`), so instructions with one encoding have one
mnemonic. The claim is the converse, and its difficulty is that there are
256 forms with up to 65536 fillings each; a table of all texts is out of the
question.

* The wording of a mnemonic is what is left of it without figures and
  remark. The operand bytes of a form are figures, so they do not show in it
  (`wording_of_fill?`), and one table of all forms tells the opcode byte from
  the wording (`get?_opcodes`, checked by evaluation over the 256 bytes). A
  signed operand is the exception in form, as its remark shows it a second
  time, and remarks are left out for that.
* Only the restarts have one wording, and differ in a figure of their own.
  `leader` puts the last restart for all of them, and `eq_of_isRestart`
  tells them apart.
* With the opcode byte known, the form is known, and figures of one form
  give the operand bytes back (`Slot.text?_inj`, a case for each slot), up to
  the bytes that the form does not take.

`head_eq_of_decode?` puts the first two together, and `decode?_unambiguous`
adds the third: two instructions have one mnemonic exactly when their
encodings are the same.
-/
import Mathlib.Data.List.TakeWhile
import TraceFlow.Proofs.Mnemonic

namespace TraceFlow.Mnemonic

variable {op sub : UInt8} {opcode operand opcode' operand' : List UInt8} {f : Form}
  {text : String}

/-! ## What an instruction consists of -/

/-- The number of operand bytes behind an opcode byte of the base page. -/
def operandSize (op : UInt8) : Nat :=
  if op.toNat ∈ [0x01, 0x08, 0x11, 0x21, 0x31, 0xC2, 0xC3, 0xC4, 0xCA, 0xCC, 0xCD, 0xD2, 0xD4,
    0xDA, 0xDC, 0xEA, 0xFA] then 2
  else if op.toNat ∈ [0x06, 0x0E, 0x16, 0x18, 0x1E, 0x20, 0x26, 0x28, 0x2E, 0x30, 0x36, 0x38, 0x3E,
    0xC6, 0xCE, 0xD6, 0xDE, 0xE0, 0xE6, 0xE8, 0xEE, 0xF0, 0xF6, 0xF8, 0xFE] then 1
  else 0

/-- The bytes that an instruction consists of: its first opcode byte, and behind it the byte that
selects an operation of the second page, wherever that stands, or else its operand. -/
def encoding (opcode operand : List UInt8) : List UInt8 :=
  match opcode with
  | [] => []
  | op :: more =>
    op :: if op = pageByte then (more ++ operand).take 1 else operand.take (operandSize op)

/-- A form takes the operand bytes that stand behind its opcode byte. -/
theorem size_slot_of_baseForm? (hf : baseForm? op = some f) : f.slot.size = operandSize op := by
  have hall : ∀ n < 256, ∀ f ∈ baseForm? (UInt8.ofNat n),
      f.slot.size = operandSize (UInt8.ofNat n) := by
    decide +kernel
  have hop := hall op.toNat op.toNat_lt f
  rw [UInt8.ofNat_toNat] at hop
  exact hop hf

theorem form?_cons (op : UInt8) (more operand : List UInt8) :
    form? (op :: more) operand =
      if op = pageByte then (more ++ operand).head?.map bitForm else baseForm? op := by
  cases more <;> rfl

/-- An instruction is decoded as the bytes that it consists of; all others have no say. -/
theorem decode?_encoding (opcode operand : List UInt8) :
    decode? ((encoding opcode operand).take 1) ((encoding opcode operand).drop 1) =
      decode? opcode operand := by
  cases opcode with
  | nil => rfl
  | cons op more =>
    unfold encoding decode?
    simp only [List.take_succ_cons, List.take_zero, List.drop_succ_cons, List.drop_zero, form?_cons]
    by_cases hop : op = pageByte
    · simp only [hop, if_true, List.nil_append]
      cases more ++ operand with
      | nil => rfl
      | cons sub rest => rfl
    · simp only [hop, if_false]
      cases hf : baseForm? op with
      | none => rfl
      | some f =>
        rw [Option.bind_some, Option.bind_some, Form.fill?, Form.fill?,
          ← size_slot_of_baseForm? hf, Slot.text?_take]

/-- Instructions of one encoding have one mnemonic. -/
theorem decode?_congr (h : encoding opcode operand = encoding opcode' operand') :
    decode? opcode operand = decode? opcode' operand' := by
  rw [← decode?_encoding opcode, h, decode?_encoding]

/-! ## Wordings -/

def bytes (text : String) : List UInt8 := text.toByteArray.data.toList

theorem bytes_append (a b : String) : bytes (a ++ b) = bytes a ++ bytes b := by
  simp [bytes]

theorem bytes_ofList (cs : List Char) :
    bytes (String.ofList cs) = cs.flatMap String.utf8EncodeChar := by
  simp [bytes, List.utf8Encode]

/-- Whether a byte is a figure, of ten or of sixteen. -/
def isFigure (b : UInt8) : Bool := (48 ≤ b && b ≤ 57) || (65 ≤ b && b ≤ 70)

def remarkByte : UInt8 := 59

/-- What a text says in front of a remark, without its figures. -/
def wording (text : List UInt8) : List UInt8 :=
  (text.takeWhile (· ≠ remarkByte)).filter fun b => !isFigure b

/-- A wording goes on behind what is no remark. -/
theorem wording_append {xs : List UInt8} (h : remarkByte ∉ xs) (ys : List UInt8) :
    wording (xs ++ ys) = wording xs ++ wording ys := by
  have hxs : ∀ b ∈ xs, decide (b ≠ remarkByte) = true := by
    intro b hb
    exact decide_eq_true fun heq => h (heq ▸ hb)
  rw [wording, List.takeWhile_append_of_pos hxs, List.filter_append, wording,
    List.takeWhile_eq_self_iff.2 hxs]
  rfl

theorem wording_of_forall_isFigure {xs : List UInt8} (h : ∀ b ∈ xs, isFigure b) :
    wording xs = [] := by
  unfold wording
  rw [List.filter_eq_nil_iff]
  intro b hb
  simp [h b ((List.takeWhile_sublist _).subset hb)]

theorem isFigure_of_mem_padded (width n : Nat) : ∀ b ∈ bytes (Hex.padded width n), isFigure b := by
  have hzero : ∀ b ∈ String.utf8EncodeChar '0', isFigure b := by
    decide +kernel
  have hdigit : ∀ k < 16, ∀ b ∈ String.utf8EncodeChar (Nat.digitChar k).toUpper, isFigure b := by
    decide +kernel
  intro b hb
  rw [Hex.padded, bytes_ofList, List.mem_flatMap] at hb
  obtain ⟨c, hc, hb⟩ := hb
  rcases List.mem_append.1 hc with hc | hc
  · rw [(List.mem_replicate.1 hc).2] at hb
    exact hzero b hb
  · exact Hex.forall_mem_upperDigits (p := fun c => ∀ b ∈ String.utf8EncodeChar c, isFigure b)
      hdigit n c hc b hb

theorem remarkByte_not_mem_padded (width n : Nat) : remarkByte ∉ bytes (Hex.padded width n) :=
  fun hmem => absurd (isFigure_of_mem_padded width n _ hmem) (by decide)

/-- The wording of a form, whatever fills its gap. -/
def Form.wording (f : Form) : List UInt8 :=
  Mnemonic.wording (bytes f.before) ++
    match f.slot with
    | .signedByte => [32]
    | _ => Mnemonic.wording (bytes f.after)

/-- Operand bytes do not show in a wording. -/
theorem wording_of_fill? (hremark : remarkByte ∉ bytes f.before)
    (h : f.fill? operand = some text) : wording (bytes text) = f.wording := by
  obtain ⟨gap, hgap, rfl⟩ := Option.map_eq_some_iff.1 h
  have hplain : ∀ width n, wording (bytes (Hex.padded width n) ++ bytes f.after) =
      wording (bytes f.after) := by
    intro width n
    rw [wording_append (remarkByte_not_mem_padded width n),
      wording_of_forall_isFigure (isFigure_of_mem_padded width n), List.nil_append]
  rw [String.append_assoc, bytes_append, bytes_append, wording_append hremark, Form.wording]
  unfold Slot.text? at hgap
  split at hgap <;> cases hgap
  · rename_i hslot
    rw [hslot]
    rfl
  · rename_i hslot
    rw [hslot, hplain]
  · rename_i hslot
    rw [hslot, hplain]
  · rename_i hslot
    rw [hslot, hplain]
  · rename_i b _ hslot
    -- the remark hides the value of the byte and all that follows
    have hcut : ∀ ys, wording (bytes " ; ($" ++ ys) = [32] := by
      intro ys
      rfl
    simp only [hslot, bytes_append, List.append_assoc]
    rw [wording_append (remarkByte_not_mem_padded 2 _),
      wording_of_forall_isFigure (isFigure_of_mem_padded 2 _), hcut, List.nil_append]

/-! ## Opcode bytes by wording -/

def isRestart (op : UInt8) : Bool := op.toNat / 64 = 3 && op.toNat % 8 = 7

/-- The opcode byte, where the last restart stands for all of them. -/
def leader (op : UInt8) : UInt8 := if isRestart op then 0xFF else op

/-- The wordings of all forms with the opcode bytes that they stand for; the second page has one
wording. -/
def wordings : List (List UInt8 × UInt8) :=
  (wording (bytes "cb $0x "), pageByte) ::
    (List.range 256).filterMap fun n =>
      (baseForm? (UInt8.ofNat n)).map fun f => (f.wording, leader (UInt8.ofNat n))

def opcodes : SortedMap (List UInt8) UInt8 := .ofList wordings

/-- No wording stands for two opcode bytes. -/
theorem get?_opcodes : ∀ e ∈ wordings, opcodes.get? e.1 = some e.2 := by
  decide +kernel

/-- The wording of a form tells its opcode byte, but for restarts. -/
theorem get?_opcodes_baseForm? (hf : baseForm? op = some f) :
    opcodes.get? f.wording = some (leader op) := by
  refine get?_opcodes (f.wording, leader op) (List.mem_cons_of_mem _ ?_)
  refine List.mem_filterMap.2 ⟨op.toNat, List.mem_range.2 op.toNat_lt, ?_⟩
  rw [UInt8.ofNat_toNat, hf]
  rfl

theorem remarkByte_not_mem_before (hf : baseForm? op = some f) :
    remarkByte ∉ bytes f.before := by
  have hall : ∀ n < 256, ∀ f ∈ baseForm? (UInt8.ofNat n), remarkByte ∉ bytes f.before := by
    decide +kernel
  have hop := hall op.toNat op.toNat_lt f
  rw [UInt8.ofNat_toNat] at hop
  exact hop hf

/-- What stands in front of the remark on the second page is the byte that selects the
operation. -/
theorem wording_bitForm (sub : UInt8) : wording (bytes (bitForm sub).before) =
    wording (bytes "cb $0x ") := by
  have hcut : ∀ ys, wording (bytes " ; " ++ ys) = [32] := fun _ => rfl
  have hpage : remarkByte ∉ bytes "cb $0x" := by decide +kernel
  rw [bitForm, bytes_append, bytes_append, bytes_append, List.append_assoc, List.append_assoc,
    wording_append hpage, wording_append (remarkByte_not_mem_padded 2 _),
    wording_of_forall_isFigure (isFigure_of_mem_padded 2 _), hcut, List.nil_append]
  rfl

/-- A mnemonic tells the opcode byte, but for the restarts. -/
theorem get?_opcodes_of_decode? {more : List UInt8}
    (h : decode? (op :: more) operand = some text) :
    opcodes.get? (wording (bytes text)) = some (leader op) := by
  obtain ⟨f, hf, hfill⟩ := Option.bind_eq_some_iff.1 h
  rw [form?_cons] at hf
  split at hf
  · rename_i hop
    obtain ⟨sub, -, rfl⟩ := Option.map_eq_some_iff.1 hf
    obtain rfl : (bitForm sub).before = text := by
      simpa [Form.fill?, bitForm, Slot.text?] using hfill
    have hleader : leader pageByte = pageByte := by decide
    rw [wording_bitForm, hop, hleader]
    exact get?_opcodes (wording (bytes "cb $0x "), pageByte) List.mem_cons_self
  · rw [wording_of_fill? (remarkByte_not_mem_before hf) hfill]
    exact get?_opcodes_baseForm? hf

/-! ## Operand bytes by figures -/

theorem padded_inj {width m n : Nat} (h : Hex.padded width m = Hex.padded width n) : m = n :=
  Hex.fill_upperDigits_inj (String.ofList_injective h)

/-- Figures end at a blank. -/
theorem padded_append_inj {width m n : Nat} {rest rest' : String}
    (hrest : rest.toList.head? = some ' ') (hrest' : rest'.toList.head? = some ' ')
    (h : Hex.padded width m ++ rest = Hex.padded width n ++ rest') : m = n := by
  have hchars := congrArg String.toList h
  have hblank : ∀ {cs : List Char}, cs.head? = some ' ' →
      ∀ c ∈ cs.head?, Hex.isDigit c = false := by
    intro cs hcs c hc
    obtain rfl : ' ' = c := Option.some.inj (hcs.symm.trans hc)
    decide
  simp only [Hex.padded, String.toList_append, String.toList_ofList] at hchars
  exact Hex.fill_upperDigits_inj (append_inj_of_class (Hex.isDigit_of_mem_fill width m)
    (Hex.isDigit_of_mem_fill width n) (hblank hrest) (hblank hrest') hchars).1

theorem Slot.exists_cons {slot : Slot} {gap : String} (hslot : slot ≠ .empty)
    (h : slot.text? operand = some gap) : ∃ b rest, operand = b :: rest := by
  cases operand with
  | nil => cases slot <;> first | exact absurd rfl hslot | cases h
  | cons b rest => exact ⟨b, rest, rfl⟩

/-- The figures in a gap tell the operand bytes that it takes. -/
theorem Slot.text?_inj {slot : Slot} {gap : String} (h : slot.text? operand = some gap)
    (h' : slot.text? operand' = some gap) : operand.take slot.size = operand'.take slot.size := by
  by_cases hslot : slot = .empty
  · subst hslot
    rfl
  obtain ⟨b, rest, rfl⟩ := exists_cons hslot h
  obtain ⟨b', rest', rfl⟩ := exists_cons hslot h'
  have hb := b.toNat_lt
  have hb' := b'.toNat_lt
  cases slot with
  | empty => exact absurd rfl hslot
  | byte =>
    have hfigures := padded_inj (Option.some.inj (h.trans h'.symm))
    simp [size, UInt8.toNat_inj.1 hfigures]
  | word =>
    cases rest with
    | nil => cases h
    | cons high rest =>
      cases rest' with
      | nil => cases h'
      | cons high' rest' =>
        have hfigures := padded_inj (Option.some.inj (h.trans h'.symm))
        have hlow : b = b' := UInt8.toNat_inj.1 (by omega)
        have hhigh : high = high' := UInt8.toNat_inj.1 (by omega)
        simp [size, hlow, hhigh]
  | highPage =>
    have hfigures := padded_inj (Option.some.inj (h.trans h'.symm))
    have hlow : b = b' := UInt8.toNat_inj.1 (by omega)
    simp [size, hlow]
  | signedByte =>
    have hgap := Option.some.inj (h.trans h'.symm)
    simp only [String.append_assoc] at hgap
    have hfigures := padded_append_inj (by simp) (by simp) hgap
    simp [size, UInt8.toNat_inj.1 hfigures]

/-! ## Mnemonics of one instruction only -/

/-- A form that is filled gives its operand bytes back. -/
theorem Form.fill?_inj (h : f.fill? operand = some text) (h' : f.fill? operand' = some text) :
    operand.take f.slot.size = operand'.take f.slot.size := by
  obtain ⟨gap, hgap, rfl⟩ := Option.map_eq_some_iff.1 h
  obtain ⟨gap', hgap', heq⟩ := Option.map_eq_some_iff.1 h'
  have hsame : gap' = gap := by
    have hchars := congrArg String.toList heq
    simpa [String.toList_inj] using hchars
  exact Slot.text?_inj hgap (hsame ▸ hgap')

/-- On the second page the byte stands in the mnemonic. -/
theorem bitForm_inj {sub' : UInt8} (h : (bitForm sub).before = (bitForm sub').before) :
    sub = sub' := by
  have hchars := congrArg String.toList h
  simp only [bitForm, String.append_assoc, String.toList_append, List.append_cancel_left_eq]
    at hchars
  have hrest : Hex.padded 2 sub.toNat ++ (" ; " ++ bitOperation sub) =
      Hex.padded 2 sub'.toNat ++ (" ; " ++ bitOperation sub') := by
    rw [← String.toList_inj]
    simpa only [String.toList_append] using hchars
  exact UInt8.toNat_inj.1 (padded_append_inj (by simp) (by simp) hrest)

theorem baseForm?_of_isRestart (h : isRestart op) :
    baseForm? op = some ⟨"rst " ++ Hex.padded 2 (8 * (op.toNat / 8 % 8)) ++ "h", .empty, ""⟩ := by
  rw [isRestart, Bool.and_eq_true, decide_eq_true_eq, decide_eq_true_eq] at h
  unfold baseForm?
  simp only [h.1, h.2]
  rfl

/-- Restarts differ in the figures of their own. -/
theorem eq_of_isRestart {op' : UInt8} (hop : isRestart op) (hop' : isRestart op')
    (h : (baseForm? op).bind (·.fill? operand) = some text)
    (h' : (baseForm? op').bind (·.fill? operand') = some text) : op = op' := by
  rw [baseForm?_of_isRestart hop, Option.bind_some] at h
  rw [baseForm?_of_isRestart hop', Option.bind_some] at h'
  have hchars := congrArg String.toList (Option.some.inj (h.trans h'.symm))
  have hfigures :
      Hex.padded 2 (8 * (op.toNat / 8 % 8)) = Hex.padded 2 (8 * (op'.toNat / 8 % 8)) := by
    simpa [String.toList_inj] using hchars
  have hfields := padded_inj hfigures
  simp only [isRestart, Bool.and_eq_true, decide_eq_true_eq] at hop hop'
  exact UInt8.toNat_inj.1 (by omega)

theorem isRestart_of_leader_eq {op' : UInt8} (h : leader op = leader op') (hne : op ≠ op') :
    isRestart op ∧ isRestart op' := by
  have hlast : isRestart 0xFF := by decide
  unfold leader at h
  split at h <;> split at h
  · exact ⟨‹_›, ‹_›⟩
  · exact ⟨‹_›, h ▸ hlast⟩
  · exact ⟨h ▸ hlast, ‹_›⟩
  · exact absurd h hne

theorem isRestart_ne_pageByte (h : isRestart op) : op ≠ pageByte := by
  rintro rfl
  exact absurd h (by decide)

/-- Instructions with one mnemonic begin with one opcode byte. -/
theorem head_eq_of_decode? {op' : UInt8} {more more' : List UInt8}
    (h : decode? (op :: more) operand = some text)
    (h' : decode? (op' :: more') operand' = some text) : op = op' := by
  have hleader : leader op = leader op' :=
    Option.some.inj ((get?_opcodes_of_decode? h).symm.trans (get?_opcodes_of_decode? h'))
  by_contra hne
  obtain ⟨hop, hop'⟩ := isRestart_of_leader_eq hleader hne
  rw [decode?, form?_cons, if_neg (isRestart_ne_pageByte hop)] at h
  rw [decode?, form?_cons, if_neg (isRestart_ne_pageByte hop')] at h'
  exact hne (eq_of_isRestart hop hop' h h')

theorem Form.text_of_bitForm (h : (bitForm sub).fill? operand = some text) :
    (bitForm sub).before = text := by
  simpa [fill?, bitForm, Slot.text?] using h

/-- One mnemonic, one encoding. -/
theorem encoding_eq_of_decode? (h : decode? opcode operand = some text)
    (h' : decode? opcode' operand' = some text) :
    encoding opcode operand = encoding opcode' operand' := by
  cases opcode with
  | nil => cases h
  | cons op more =>
    cases opcode' with
    | nil => cases h'
    | cons op' more' =>
      obtain rfl := head_eq_of_decode? h h'
      obtain ⟨f, hf, hfill⟩ := Option.bind_eq_some_iff.1 h
      obtain ⟨f', hf', hfill'⟩ := Option.bind_eq_some_iff.1 h'
      rw [form?_cons] at hf hf'
      by_cases hop : op = pageByte
      · rw [if_pos hop] at hf hf'
        obtain ⟨sub, hsub, rfl⟩ := Option.map_eq_some_iff.1 hf
        obtain ⟨sub', hsub', rfl⟩ := Option.map_eq_some_iff.1 hf'
        have hsame : sub = sub' :=
          bitForm_inj ((Form.text_of_bitForm hfill).trans (Form.text_of_bitForm hfill').symm)
        simp only [encoding, if_pos hop, List.take_one, hsub, hsub', hsame]
      · rw [if_neg hop] at hf hf'
        obtain rfl := Option.some.inj (hf.symm.trans hf')
        simp only [encoding, if_neg hop]
        rw [← size_slot_of_baseForm? hf, Form.fill?_inj hfill hfill']

/-- **A mnemonic stands for one instruction: whatever lists of opcode and operand bytes have it as
their text, they agree on the first opcode byte, on the byte that selects an operation of the
second page and on the operand bytes that the instruction takes; and lists that agree on those have
one text.** -/
theorem decode?_unambiguous (h : decode? opcode operand = some text) :
    decode? opcode' operand' = some text ↔
      encoding opcode' operand' = encoding opcode operand := by
  constructor
  · exact fun h' => encoding_eq_of_decode? h' h
  · exact fun heq => (decode?_congr heq).trans h

/-- A swap that stands wholly among the opcode bytes, and one with its second byte among the operand
bytes. -/
theorem decode?_unambiguous_swap :
    decode? [0xCB, 0x37, 0x00] [0x01] = some "cb $0x37 ; swap %a" ↔
      encoding [0xCB, 0x37, 0x00] [0x01] = encoding [0xCB] [0x37] :=
  decode?_unambiguous (by decide +kernel)

end TraceFlow.Mnemonic
