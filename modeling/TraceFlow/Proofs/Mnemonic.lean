/-
TraceFlow.Proofs.Mnemonic — a mnemonic stands on one line.

The forms of the two pages are put together from fixed words, from names
that the fields of an opcode select, and from numbers. None of them holds a
line feed, and the lemmas follow that construction: numbers by their digits,
names by their lists (`lineFeed_not_mem_selected`), forms quarter by quarter
(`oneLine_form?`), and gaps by the slot that they fill.

`lineFeed_not_mem_label` says it of every label, also of those for opcodes
that the CPU does not know. Listings and drawings rely on it: a label with a
line feed would make two lines of one instruction. It is stated of all
operands, since the bytes of a trace may be anything.
-/
import TraceFlow.Mnemonic
import TraceFlow.Proofs.BlockName

namespace TraceFlow

/-! ## Numbers -/

namespace Hex

theorem lineFeed_not_mem_padded (width n : Nat) : '\n' ∉ (padded width n).toList := by
  rw [padded, String.toList_ofList]
  intro hmem
  have hdigit := isDigit_of_mem_fill width n '\n' hmem
  revert hdigit
  decide

theorem lineFeed_not_mem_ofBytes (bytes : List UInt8) : '\n' ∉ (ofBytes bytes).toList := by
  have hdigit : ∀ n : Fin 16, '\n' ≠ Nat.digitChar n.val := by decide
  rw [ofBytes, String.toList_ofList, List.mem_flatMap]
  rintro ⟨b, -, hmem⟩
  have hb := b.toNat_lt
  unfold pair at hmem
  rcases List.mem_cons.1 hmem with hhigh | hlow
  · exact hdigit ⟨b.toNat / 16, by omega⟩ hhigh
  · exact hdigit ⟨b.toNat % 16, by omega⟩ (List.mem_singleton.1 hlow)

end Hex

theorem lineFeed_not_mem_toDigits (n : Nat) : '\n' ∉ Nat.toDigits 10 n :=
  fun hmem => absurd (BlockName.isWordChar_of_mem_toDigits hmem) (by decide)

namespace Mnemonic

theorem lineFeed_not_mem_decimal (n : Int) : '\n' ∉ (decimal n).toList := by
  cases n <;> simp [decimal, lineFeed_not_mem_toDigits]

/-! ## Names that the fields select -/

theorem lineFeed_not_mem_getD {names : List String} (h : ∀ s ∈ names, '\n' ∉ s.toList) (i : Nat) :
    '\n' ∉ (names.getD i "").toList := by
  rw [List.getD_eq_getElem?_getD]
  cases hi : names[i]? with
  | none => simp
  | some s => exact h s (List.mem_of_getElem? hi)

/-- No name that a field selects holds a line feed. -/
theorem lineFeed_not_mem_selected (i : Nat) :
    '\n' ∉ (register i).toList ∧ '\n' ∉ (pair i).toList ∧ '\n' ∉ (stackPair i).toList ∧
      '\n' ∉ (pointer i).toList ∧ '\n' ∉ (condition i).toList ∧ '\n' ∉ (arithmetic i).toList ∧
      '\n' ∉ (rotation i).toList ∧ '\n' ∉ (accumulator i).toList := by
  refine ⟨?_, ?_, ?_, ?_, ?_, ?_, ?_, ?_⟩ <;> exact lineFeed_not_mem_getD (by simp) i

/-! ## Forms -/

def Form.OneLine (f : Form) : Prop := '\n' ∉ f.before.toList ∧ '\n' ∉ f.after.toList

theorem oneLine_quarter0 {y z : Nat} {f : Form} (hf : quarter0 y z = some f) : f.OneLine := by
  unfold quarter0 at hf
  dsimp only at hf
  -- one case for each form that the fields select
  repeat' split at hf
  all_goals
    cases hf
    simp [Form.OneLine, lineFeed_not_mem_selected]

theorem oneLine_quarter3 {y z : Nat} {f : Form} (hf : quarter3 y z = some f) : f.OneLine := by
  unfold quarter3 at hf
  dsimp only at hf
  repeat' split at hf
  all_goals
    cases hf
    try simp [Form.OneLine, lineFeed_not_mem_selected, Hex.lineFeed_not_mem_padded]

theorem oneLine_baseForm? {op : UInt8} {f : Form} (hf : baseForm? op = some f) : f.OneLine := by
  unfold baseForm? at hf
  dsimp only at hf
  split at hf
  · exact oneLine_quarter0 hf
  · split at hf <;> cases hf <;> simp [Form.OneLine, lineFeed_not_mem_selected]
  · cases hf
    simp [Form.OneLine, lineFeed_not_mem_selected]
  · exact oneLine_quarter3 hf

theorem oneLine_bitForm (sub : UInt8) : (bitForm sub).OneLine := by
  have hoperation : '\n' ∉ (bitOperation sub).toList := by
    unfold bitOperation
    dsimp only
    split <;> simp [lineFeed_not_mem_selected, lineFeed_not_mem_toDigits]
  simp [Form.OneLine, bitForm, hoperation, Hex.lineFeed_not_mem_padded]

/-- The forms of both pages stand on one line. -/
theorem oneLine_form? {opcode operand : List UInt8} {f : Form}
    (hf : form? opcode operand = some f) : f.OneLine := by
  unfold form? at hf
  split at hf
  · cases hf
  · split at hf
    · obtain ⟨b, -, rfl⟩ := Option.map_eq_some_iff.1 hf
      exact oneLine_bitForm b
    · exact oneLine_baseForm? hf
  · split at hf
    · cases hf
      exact oneLine_bitForm _
    · exact oneLine_baseForm? hf

/-- So do the numbers in their gaps. -/
theorem lineFeed_not_mem_text? {slot : Slot} {operand : List UInt8} {gap : String}
    (h : slot.text? operand = some gap) : '\n' ∉ gap.toList := by
  unfold Slot.text? at h
  split at h <;> cases h <;> simp [Hex.lineFeed_not_mem_padded, lineFeed_not_mem_decimal]

/-! ## Labels -/

/-- The label of an instruction stands on one line. -/
theorem lineFeed_not_mem_label (opcode operand : List UInt8) :
    '\n' ∉ (label opcode operand).toList := by
  unfold label
  cases hdecode : decode? opcode operand with
  | none => simp [Hex.lineFeed_not_mem_ofBytes]
  | some text =>
    obtain ⟨f, hf, hfill⟩ := Option.bind_eq_some_iff.1 hdecode
    obtain ⟨gap, hgap, rfl⟩ := Option.map_eq_some_iff.1 hfill
    obtain ⟨hbefore, hafter⟩ := oneLine_form? hf
    simp [hbefore, hafter, lineFeed_not_mem_text? hgap]

end Mnemonic

end TraceFlow
