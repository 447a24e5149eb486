/-
TraceFlow.TraceLine — the records of a trace and the lines they are
written on.

A line holds an instruction,

    … PC : 0150 | OPCODE : CD | MEM : 1000

or an interrupt marker,

    … Interrupt : 40

with any text before, white space (of any kind) around every mark, hex
digits and keywords of either case, and nothing but white space after.
The operand part may be missing.

* `afterKeyword?`, `afterMark?` and `digits?` each read one piece and
  give what follows it; the two line forms are chains of them.
* The first place where a form fits decides: when its numbers are out of
  range or of odd length, the line is no such record.
* A line that is no instruction may still be a marker.
-/
import TraceFlow.Instruction
import TraceFlow.Text.Blank

namespace TraceFlow

/-- One meaningful line of a trace. -/
inductive TraceRecord where
  | instruction (inst : Instruction)
  /-- A marker written before an interrupt handler runs. -/
  | interrupt (id : Nat)
deriving DecidableEq, Repr

namespace TraceLine

open Text

/-! ## Pieces of a line -/

/-- What follows a keyword of upper-case letters, which the text may write in either case. -/
def afterKeyword? : List Char → List Char → Option (List Char)
  | [], cs => some cs
  | _ :: _, [] => none
  | k :: ks, c :: cs => if c.toUpper = k then afterKeyword? ks cs else none

/-- What follows white space, a mark and white space. -/
def afterMark? (mark : Char) (cs : List Char) : Option (List Char) :=
  match dropBlanks cs with
  | [] => none
  | c :: cs => if c = mark then some (dropBlanks cs) else none

/-- The hex digits at the start of a text, and what follows them. -/
def digits (cs : List Char) : List Char × List Char :=
  (cs.takeWhile Hex.isDigit, cs.dropWhile Hex.isDigit)

/-- The hex digits at the start of a text, of which there must be one, and what follows them. -/
def digits? (cs : List Char) : Option (List Char × List Char) :=
  match digits cs with
  | ([], _) => none
  | read => some read

/-- Whether nothing but white space is left. -/
def ends (cs : List Char) : Bool := (dropBlanks cs).isEmpty

/-! ## The two forms -/

structure Fields where
  pc : List Char
  opcode : List Char
  /-- The digits of the operand, if the line has that part. -/
  operand : Option (List Char)
deriving DecidableEq, Repr

/-- The operand part, up to the end of the line. -/
def operandPart? (cs : List Char) : Option (List Char) := do
  let cs ← afterMark? '|' cs
  let cs ← afterKeyword? ['M', 'E', 'M'] cs
  let cs ← afterMark? ':' cs
  let (operand, cs) := digits cs
  if ends cs then some operand else none

/-- The fields of an instruction line whose form begins right here. -/
def fieldsHere? (cs : List Char) : Option Fields := do
  let cs ← afterKeyword? ['P', 'C'] cs
  let cs ← afterMark? ':' cs
  let (pc, cs) ← digits? cs
  let cs ← afterMark? '|' cs
  let cs ← afterKeyword? ['O', 'P', 'C', 'O', 'D', 'E'] cs
  let cs ← afterMark? ':' cs
  let (opcode, cs) ← digits? cs
  if ends cs then
    some ⟨pc, opcode, none⟩
  else
    let operand ← operandPart? cs
    some ⟨pc, opcode, some operand⟩

/-- The digits of an interrupt marker whose form begins right here. -/
def markerHere? (cs : List Char) : Option (List Char) := do
  let cs ← afterKeyword? ['I', 'N', 'T', 'E', 'R', 'R', 'U', 'P', 'T'] cs
  let cs ← afterMark? ':' cs
  let (id, cs) ← digits? cs
  if ends cs then some id else none

/-- What `read` gives at the first place of a text where it gives anything. -/
def firstMatch {β : Type} (read : List Char → Option β) : List Char → Option β
  | [] => read []
  | c :: cs =>
    match read (c :: cs) with
    | some b => some b
    | none => firstMatch read cs

/-! ## Records -/

/-- The instruction that fields spell: the address fits 64 bits, opcode and operand are whole
bytes. -/
def Fields.instruction? (f : Fields) : Option Instruction := do
  let opcode ← Hex.bytes? f.opcode
  let operand ← Hex.bytes? (f.operand.getD [])
  let pc ← Hex.numberBelow? (wordSize 64) f.pc
  return { pc := pc, opcode := opcode, operand := operand }

/-- The number that a marker's digits spell; it fits 32 bits. -/
def markerNumber? (digits : List Char) : Option Nat := Hex.numberBelow? (wordSize 32) digits

def instruction? (line : List Char) : Option Instruction :=
  (firstMatch fieldsHere? line).bind Fields.instruction?

def interrupt? (line : List Char) : Option Nat :=
  (firstMatch markerHere? line).bind markerNumber?

/-- The record on a line, if it holds one. -/
def read? (line : List Char) : Option TraceRecord :=
  match instruction? line with
  | some inst => some (.instruction inst)
  | none => (interrupt? line).map .interrupt

end TraceLine

end TraceFlow
