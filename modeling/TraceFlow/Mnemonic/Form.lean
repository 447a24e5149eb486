/-
TraceFlow.Mnemonic.Form — the written form of an instruction.

A form is a text with at most one gap for operand bytes; `Slot` says how
many bytes the gap takes and how it shows them. Bytes past those are not
looked at.
-/
import TraceFlow.Address
import TraceFlow.Text.Hex

namespace TraceFlow.Mnemonic

/-- The gap of a form: which operand bytes it takes and how it shows them. -/
inductive Slot where
  | empty
  /-- One byte, in two digits. -/
  | byte
  /-- Two bytes, low one first, in four digits. -/
  | word
  /-- One byte as an address in the page at FF00, in four digits. -/
  | highPage
  /-- One byte in two digits, then its value as a signed byte in a remark. -/
  | signedByte
deriving DecidableEq, Repr

def decimal : Int → String
  | .ofNat n => Nat.repr n
  | .negSucc n => "-" ++ Nat.repr (n + 1)

namespace Slot

def size : Slot → Nat
  | .empty => 0
  | .byte | .highPage | .signedByte => 1
  | .word => 2

/-- The gap filled with operand bytes; `none` when there are too few. -/
def text? : Slot → List UInt8 → Option String
  | .empty, _ => some ""
  | .byte, b :: _ => some (Hex.padded 2 b.toNat)
  | .word, low :: high :: _ => some (Hex.padded 4 (256 * high.toNat + low.toNat))
  | .highPage, b :: _ => some (Hex.padded 4 (0xFF00 + b.toNat))
  | .signedByte, b :: _ =>
    some (Hex.padded 2 b.toNat ++ " ; ($" ++ decimal ((b.toNat : Int).bmod 256) ++ ")")
  | _, _ => none

/-- Only the bytes that the gap takes count. -/
theorem text?_take (s : Slot) (operand : List UInt8) :
    s.text? (operand.take s.size) = s.text? operand := by
  rcases operand with _ | ⟨a, _ | ⟨b, rest⟩⟩ <;> cases s <;> simp [text?, size]

end Slot

structure Form where
  before : String
  slot : Slot := .empty
  after : String := ""
deriving DecidableEq, Repr

/-- The form filled with operand bytes; `none` when there are too few. -/
def Form.fill? (f : Form) (operand : List UInt8) : Option String :=
  (f.slot.text? operand).map fun gap => f.before ++ gap ++ f.after

end TraceFlow.Mnemonic
