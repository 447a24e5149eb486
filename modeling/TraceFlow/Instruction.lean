/-
TraceFlow.Instruction — one retired instruction.

An instruction is where it stands, its opcode and operand bytes, and the
label a decoder gave it. The label only informs: `SameCode` compares all
the rest.
-/
import TraceFlow.Address
import TraceFlow.Text.Hex

namespace TraceFlow

/-- One retired instruction. -/
structure Instruction where
  pc : Address
  opcode : List UInt8
  operand : List UInt8 := []
  /-- The decoded mnemonic, if there was a decoder. -/
  label : Option String := none
deriving DecidableEq, Repr

namespace Instruction

/-- The same address, opcode and operand, whatever the labels. -/
def SameCode (a b : Instruction) : Prop :=
  a.pc = b.pc ∧ a.opcode = b.opcode ∧ a.operand = b.operand

instance (a b : Instruction) : Decidable (a.SameCode b) :=
  inferInstanceAs (Decidable (_ ∧ _ ∧ _))

theorem SameCode.refl (a : Instruction) : a.SameCode a := ⟨rfl, rfl, rfl⟩

def unlabelled (i : Instruction) : Instruction := { i with label := none }

theorem sameCode_iff {a b : Instruction} : a.SameCode b ↔ a.unlabelled = b.unlabelled := by
  simp [SameCode, unlabelled]

def opcodeHex (i : Instruction) : String := Hex.ofBytes i.opcode

/-- The label behind a dash; nothing when there is none. -/
def labelText (i : Instruction) : String :=
  match i.label with
  | some label => " - " ++ label
  | none => ""

/-- Address in at least `digits` digits, opcode and label. -/
def describe (digits : Nat) (i : Instruction) : String :=
  Hex.padded digits i.pc ++ ": " ++ i.opcodeHex ++ i.labelText

/-- The description as a line of a listing, set in by four spaces. -/
def listing (digits : Nat) (i : Instruction) : String := "    " ++ i.describe digits

def text (i : Instruction) : String := i.describe 4

end Instruction

end TraceFlow
