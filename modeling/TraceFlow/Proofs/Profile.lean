/-
TraceFlow.Proofs.Profile — how a step is classified.

The program classifies a step by its opcode and by a displacement, the
difference of two addresses as a signed 64-bit word. Claims speak of
addresses and of the class of an opcode. `Profile.Regular` is what a CPU
promises so that the two are the same: addresses and sizes far below a signed
64-bit word, and no opcode in two classes. The Game Boy is one
(`gameBoy_regular`).

* Displacements. For a regular CPU the difference does not wrap, so the test
  on a displacement is a test on addresses (`displacement_eq_offset_iff`).
  For any CPU it is a test on words of 64 bits
  (`displacement_eq_offset_iff_word`), which serves where a claim is about
  every CPU.
* Classes. An opcode is looked up in several classes in a fixed order. As
  classes are apart, the order does not matter: an opcode has the class that
  contains it (`Regular.classify_eq_some_iff`), and none exactly when no
  class does (`Regular.classify_eq_none_iff`).
* Steps. `Regular.returns_iff` and `Regular.transfer_eq_call_iff` state the
  two classifications that claims use most, and three lemmas when a step
  enters a handler and when it does not.
-/
import TraceFlow.Recorder

namespace TraceFlow

variable {p : Profile} {flow : Flow} {opcode : List UInt8} {a b : Nat}

namespace Profile

/-- What a CPU promises: addresses of at most 62 bits, small sizes, and no opcode in two classes. -/
structure Regular (p : Profile) : Prop where
  width : p.addressWidth ≤ 62
  sizes : ∀ flow, (p.opcodeClass flow).size < wordSize 62
  apart : ∀ {flow flow'}, flow ≠ flow' →
    ∀ x ∈ (p.opcodeClass flow).opcodes, x ∉ (p.opcodeClass flow').opcodes

/-- The classes of the Game Boy are apart, and its addresses short. -/
theorem gameBoy_regular : Regular .gameBoy := by
  refine ⟨by decide, fun flow => ?_, fun {flow flow'} hne => ?_⟩
  · cases flow <;> decide
  · revert hne
    cases flow <;> cases flow' <;> decide +kernel

/-- Its interrupt vectors lie in the address space. -/
theorem gameBoy_vector_lt {pc : Address} (hvector : gameBoy.isInterruptVector pc = true) :
    pc < gameBoy.beginAddress := by
  have hall : ∀ x ∈ gameBoy.interruptVectors, x < gameBoy.beginAddress := by
    decide +kernel
  exact hall pc (List.contains_iff_mem.1 hvector)

theorem beginAddress_lt (p : Profile) : p.beginAddress < wordSize 64 :=
  Nat.pow_lt_pow_right (by decide) (Nat.mod_lt _ (by decide))

/-- In words of 64 bits a step has the displacement of a class exactly when it falls through. -/
theorem displacement_eq_offset_iff_word {c : OpcodeClass} (hb : b < p.beginAddress) :
    displacement a b = c.offset ↔ b = (a + c.size) % wordSize 64 := by
  have hword := Nat.lt_trans hb p.beginAddress_lt
  unfold displacement OpcodeClass.offset signed64
  rw [wordSize_64] at hword ⊢
  constructor
  · intro heq
    have hmod := congrArg (· % ((18446744073709551616 : Nat) : Int)) heq
    simp only [Int.bmod_emod] at hmod
    omega
  · intro heq
    have hmod : ((b : Int) - a) % ((18446744073709551616 : Nat) : Int) =
        (c.size : Int) % ((18446744073709551616 : Nat) : Int) := by
      omega
    rw [Int.bmod_def, Int.bmod_def, hmod]

namespace Regular

variable (h : Regular p)

include h

/-! ## Displacements -/

theorem beginAddress_le : p.beginAddress ≤ wordSize 62 := by
  have := h.width
  unfold beginAddress
  rw [Nat.mod_eq_of_lt (by omega)]
  exact Nat.pow_le_pow_right (by decide) h.width

/-- Between addresses of a regular CPU a displacement is the plain difference. -/
theorem displacement_eq (ha : a < p.beginAddress) (hb : b < p.beginAddress) :
    displacement a b = (b : Int) - a := by
  have hlt : p.beginAddress < wordSize 63 :=
    Nat.lt_of_le_of_lt h.beginAddress_le (Nat.pow_lt_pow_right (by decide) (by decide))
  exact TraceFlow.displacement_eq (Nat.lt_trans ha hlt) (Nat.lt_trans hb hlt)

theorem offset_eq (flow : Flow) : (p.opcodeClass flow).offset = (p.opcodeClass flow).size := by
  have hsize := h.sizes flow
  have hsucc : wordSize 63 = 2 * wordSize 62 := wordSize_succ 62
  exact signed64_eq (by omega) (by omega)

/-- A step has the displacement of a class exactly when it falls through. -/
theorem displacement_eq_offset_iff (flow : Flow) (ha : a < p.beginAddress)
    (hb : b < p.beginAddress) :
    displacement a b = (p.opcodeClass flow).offset ↔ b = a + (p.opcodeClass flow).size := by
  rw [h.displacement_eq ha hb, h.offset_eq]
  omega

/-! ## Classes -/

omit h in
/-- The first byte of an opcode decides on its class. -/
theorem contains_iff {c : OpcodeClass} :
    c.contains opcode = true ↔ ∃ x rest, opcode = x :: rest ∧ x ∈ c.opcodes := by
  unfold OpcodeClass.contains
  cases opcode with
  | nil => simp
  | cons x rest => simp

/-- An opcode lies in one class at most. -/
theorem eq_of_contains {flow' : Flow} (hflow : (p.opcodeClass flow).contains opcode = true)
    (hflow' : (p.opcodeClass flow').contains opcode = true) : flow = flow' := by
  obtain ⟨x, rest, rfl, hx⟩ := contains_iff.1 hflow
  obtain ⟨y, rest', heq, hy⟩ := contains_iff.1 hflow'
  obtain ⟨rfl, -⟩ := List.cons.inj heq
  by_cases hne : flow = flow'
  · exact hne
  · exact absurd hy (h.apart hne x hx)

theorem contains_eq_false (flow' : Flow) (hflow : (p.opcodeClass flow).contains opcode = true)
    (hne : flow' ≠ flow) : (p.opcodeClass flow').contains opcode = false :=
  Bool.eq_false_iff.2 fun hflow' => hne (h.eq_of_contains hflow' hflow)

omit h in
/-- An opcode that is in no class is not classified. -/
theorem classify_eq_none_iff :
    p.classify opcode = none ↔ ∀ flow, (p.opcodeClass flow).contains opcode = false := by
  unfold classify
  rw [List.find?_eq_none]
  constructor
  · intro hnone flow
    have hall : flow ∈ [Flow.ret, .call, .jump, .jr, .interruptEntry] := by
      cases flow <;> decide
    simpa using hnone flow hall
  · intro hnone flow _
    simpa using hnone flow

/-- An opcode has the class that contains it, as there is one at most. -/
theorem classify_eq_some_iff :
    p.classify opcode = some flow ↔ (p.opcodeClass flow).contains opcode = true := by
  constructor
  · intro hsome
    have hfound := List.find?_some hsome
    exact hfound
  · intro hflow
    cases hclass : p.classify opcode with
    | none =>
      rw [classify_eq_none_iff.1 hclass flow] at hflow
      cases hflow
    | some flow' =>
      have hflow' := List.find?_some hclass
      rw [h.eq_of_contains hflow hflow']

/-! ## Steps -/

/-- A return is taken when it does not fall through. -/
theorem returns_iff (ha : a < p.beginAddress) (hb : b < p.beginAddress) :
    p.returns opcode (displacement a b) = true ↔
      p.ret.contains opcode = true ∧ b ≠ a + p.ret.size := by
  have hoffset := h.displacement_eq_offset_iff .ret ha hb
  unfold returns
  rw [Bool.and_eq_true, bne_iff_ne]
  exact and_congr_right fun _ => not_congr hoffset

omit h in
theorem transfer_eq_call_iff {offset : Int} :
    p.transfer opcode offset = .call ↔ p.call.contains opcode = true ∧ offset ≠ p.call.offset := by
  unfold transfer
  by_cases hcall : p.call.contains opcode
  · by_cases hoffset : offset = p.call.offset <;> simp [hcall, hoffset]
  · rw [if_neg hcall]
    refine ⟨fun heq => ?_, fun hclass => absurd hclass.1 hcall⟩
    split at heq
    · split at heq <;> cases heq
    · split at heq
      · split at heq <;> cases heq
      · cases heq

/-- A step that no interrupt announced enters no handler from a call or a jump, from a return that
fell through, or from right behind an instruction of no class. -/
theorem entersHandler_eq_false {offset : Int}
    (hexplained : (∃ flow, (flow = .call ∨ flow = .jump ∨ flow = .jr) ∧
        (p.opcodeClass flow).contains opcode = true) ∨
      (p.ret.contains opcode = true ∧ offset = p.ret.offset) ∨
      ((∀ flow, (p.opcodeClass flow).contains opcode = false) ∧ 0 < offset ∧
        offset ≤ signed64 p.maxInstructionSize)) :
    p.entersHandler false b opcode offset = false := by
  unfold entersHandler
  rcases hexplained with ⟨flow, hflow, hclass⟩ | ⟨hclass, hoffset⟩ | ⟨hclass, hpos, hle⟩
  · rw [h.classify_eq_some_iff.2 hclass]
    rcases hflow with rfl | rfl | rfl <;> simp
  · rw [h.classify_eq_some_iff.2 (show (p.opcodeClass .ret).contains opcode = true from hclass)]
    simp [hoffset]
  · rw [classify_eq_none_iff.2 hclass]
    simp [hpos, hle]

omit h in
/-- No handler begins elsewhere than at a vector. -/
theorem entersHandler_of_not_vector {announced : Bool} {offset : Int}
    (hvector : p.isInterruptVector b = false) :
    p.entersHandler announced b opcode offset = false := by
  unfold entersHandler
  rw [hvector, Bool.false_and]

/-- A restart that leads to a vector enters its handler. -/
theorem entersHandler_restart {announced : Bool} {offset : Int}
    (hvector : p.isInterruptVector b = true)
    (hclass : p.interruptEntry.contains opcode = true) :
    p.entersHandler announced b opcode offset = true := by
  have hsome := h.classify_eq_some_iff.2
    (show (p.opcodeClass .interruptEntry).contains opcode = true from hclass)
  unfold entersHandler
  rw [hvector, hsome]
  simp

end Regular

end Profile

end TraceFlow
