/-
TraceFlow.Mnemonic — the mnemonic of an instruction of the Game Boy's CPU.

`decode?` gives the mnemonic, `label` one for every instruction: those
the CPU does not know are shown by their opcode.
-/
import TraceFlow.Mnemonic.Page

namespace TraceFlow.Mnemonic

def decoderName : String := "GbZ80Decoder"

/-- The form of an instruction and the bytes that fill its gap. The byte that selects an operation
on the second page is the second opcode byte, or else the first operand byte. -/
def form? (opcode operand : List UInt8) : Option Form :=
  match opcode with
  | [] => none
  | [op] =>
    if op = pageByte then operand.head?.map bitForm else baseForm? op
  | op :: sub :: _ => if op = pageByte then some (bitForm sub) else baseForm? op

/-- The mnemonic of an instruction; `none` when the opcode is unknown or operand bytes are
missing. -/
def decode? (opcode operand : List UInt8) : Option String :=
  (form? opcode operand).bind fun form => form.fill? operand

/-- The mnemonic of an instruction, or else its opcode bytes in a remark. -/
def label (opcode operand : List UInt8) : String :=
  (decode? opcode operand).getD ("[unknown: " ++ Hex.ofBytes opcode ++ "]")

end TraceFlow.Mnemonic
