/-
TraceFlow.Json.Reader — reading documents byte by byte.

* A `Cursor` is what is left of the input and how much was taken of it; a
  byte may be looked at before it is taken.
* A `Reader` moves the cursor and gives a value or says what is wrong. The
  cursor of a failed reader stays where it failed.
* Values of one piece have readers (`bool`, `string`, `natural`);
  `mismatch` reads the value that stands in the place of an expected one,
  to name it.
-/
import TraceFlow.Json.Fault
import TraceFlow.Json.Numeral
import TraceFlow.Text.Quoted
import TraceFlow.Text.IllFormed
import TraceFlow.Word

namespace TraceFlow.Json

/-! ## The cursor -/

structure Cursor where
  /-- The bytes that were not taken. -/
  rest : List UInt8
  /-- Their number. -/
  left : Nat
  /-- The number is kept, and not counted anew. -/
  left_eq : left = rest.length
  /-- Where the bytes taken end. -/
  taken : Place
  /-- Whether the next byte was looked at. -/
  looked : Bool
deriving DecidableEq, Repr

def Place.after (p : Place) (b : UInt8) : Place :=
  if b = 10 then ⟨p.line + 1, 0⟩ else ⟨p.line, p.column + 1⟩

namespace Cursor

def start (bytes : List UInt8) : Cursor := ⟨bytes, bytes.length, rfl, ⟨1, 0⟩, false⟩

/-- The place that a message names: a byte that was looked at counts. -/
def place (c : Cursor) : Place :=
  match c.looked, c.rest with
  | true, b :: _ => c.taken.after b
  | _, _ => c.taken

def next (c : Cursor) : Cursor :=
  match h : c.rest with
  | [] => { c with looked := false }
  | b :: bs => ⟨bs, c.left - 1, by simp [c.left_eq, h], c.taken.after b, false⟩

/-- Whether a byte is white space between the parts of a document. -/
def isSpace (b : UInt8) : Bool := b = 32 || b = 10 || b = 9 || b = 13

/-- The cursor behind white space, from the bytes that were not taken and their number; the byte
there is looked at. -/
def behindSpace (taken : Place) : (rest : List UInt8) → (left : Nat) → left = rest.length → Cursor
  | [], left, h => ⟨[], left, h, taken, true⟩
  | b :: bs, left, h =>
    if isSpace b then behindSpace (taken.after b) bs (left - 1) (by simp [h])
    else ⟨b :: bs, left, h, taken, true⟩

end Cursor

/-- Moves a cursor and gives a value, or says what is wrong. -/
abbrev Reader (α : Type) := ExceptT Misfit (StateM Cursor) α

namespace Reader

def fail {α : Type} (f : Fault) : Reader α := do
  throw ⟨f, some (← get).place⟩

/-- Fails some bytes before the cursor, on the same line. -/
def failBefore {α : Type} (bytes : Nat) (f : Fault) : Reader α := do
  let p := (← get).place
  throw ⟨f, some { p with column := p.column - bytes }⟩

/-- Fails with a value that does not fit; whoever reads it knows the place. -/
def reject {α : Type} (f : Fault) : Reader α := throw ⟨f, none⟩

/-- The reader, except that a failure without a place gets the cursor's. -/
def placed {α : Type} (r : Reader α) : Reader α :=
  tryCatch r fun m => do
    match m.place with
    | some _ => throw m
    | none => throw { m with place := some (← get).place }

/-- Runs `r`, and then `close` even if `r` failed; the first failure counts. -/
def closing {α : Type} (r : Reader α) (close : Reader Unit) : Reader α := do
  let a ← tryCatch r fun m => do
    tryCatch close fun _ => pure ()
    throw m
  close
  return a

/-- Looks at the next byte. -/
def look : Reader (Option UInt8) := do
  let c ← get
  set { c with looked := true }
  return c.rest.head?

def take : Reader (Option UInt8) := do
  let c ← get
  set c.next
  return c.rest.head?

/-- Takes the next byte, which was looked at. -/
def drop : Reader Unit := do
  let _ ← take

/-- Takes white space and looks at the byte behind it. -/
def space : Reader (Option UInt8) := do
  let c ← get
  let c := Cursor.behindSpace c.taken c.rest c.left c.left_eq
  set c
  return c.rest.head?

/-- Looks at the first byte of a value. -/
def start : Reader UInt8 := do
  match ← space with
  | some b => return b
  | none => fail .endInValue

/-- The number of steps that no reading of what is left takes. -/
def fuel : Reader Nat := do
  return (← get).left + 1

/-! ## Words -/

def word : List UInt8 → Reader Unit
  | [] => return
  | w :: ws => do
    match ← take with
    | none => fail .endInValue
    | some b => if b = w then word ws else fail .badWord

def ascii (s : String) : List UInt8 := s.toList.map fun c => UInt8.ofNat c.toNat

/-! ## Strings -/

/-- The byte `b` in a string, or the end of the text. -/
def stringByte : Reader UInt8 := do
  match ← take with
  | some b => return b
  | none => fail .endInString

def hexValue? (b : UInt8) : Option Nat := Hex.value? (Char.ofNat b.toNat)

def hexUnit : Reader Nat := do
  let a ← stringByte
  let b ← stringByte
  let c ← stringByte
  let d ← stringByte
  match hexValue? a, hexValue? b, hexValue? c, hexValue? d with
  | some a, some b, some c, some d => return 4096 * a + 256 * b + 16 * c + d
  | _, _, _, _ => fail .badEscape

/-- Takes one byte that has to come next in a pair of escapes. -/
def pairByte (b : UInt8) : Reader Unit := do
  match ← look with
  | none => fail .endInString
  | some x =>
    drop
    if x = b then return else fail .noSecondHalf

/-- Takes the digits of an escaped code point, and of the second half of a pair. -/
def hexEscape : Reader (List UInt8) := do
  let n ← hexUnit
  if 0xDC00 ≤ n ∧ n ≤ 0xDFFF then
    fail .loneHalf
  else if n < 0xD800 ∨ 0xDBFF < n then
    return String.utf8EncodeChar (Char.ofNat n)
  else
    pairByte 0x5C
    pairByte 0x75
    let m ← hexUnit
    if m < 0xDC00 ∨ 0xDFFF < m then fail .loneHalf
    else
      let point := 0x10000 + 0x400 * (n - 0xD800) + (m - 0xDC00)
      return String.utf8EncodeChar (Char.ofNat point)

/-- Takes what follows a backslash; gives the bytes that it stands for. -/
def escape : Reader (List UInt8) := do
  match ← stringByte with
  | 0x22 => return [0x22]
  | 0x5C => return [0x5C]
  | 0x2F => return [0x2F]
  | 0x62 => return [0x08]
  | 0x66 => return [0x0C]
  | 0x6E => return [0x0A]
  | 0x72 => return [0x0D]
  | 0x74 => return [0x09]
  | 0x75 => hexEscape
  | _ => fail .badEscape

/-- Takes the inside of a string and its closing quote; gives the bytes that it stands for. -/
def stringBytes : Nat → Reader (List UInt8)
  | 0 => fail .endInString
  | fuel + 1 => do
    let b ← stringByte
    if b = 0x22 then return []
    else if b = 0x5C then
      let bytes ← escape
      return bytes ++ (← stringBytes fuel)
    else if b < 0x20 then fail .controlCharacter
    else return b :: (← stringBytes fuel)

/-- Takes the inside of a string whose opening quote was taken. Bytes that are no text count back
from the closing quote: as many as the string has from the first ill-formed one on. -/
def stringBody : Reader String := do
  let bytes ← stringBytes (← fuel)
  match Utf8.decode? bytes with
  | some cs => return String.ofList cs
  | none => failBefore (bytes.length - Utf8.wellFormedLength bytes) .badText

/-! ## Numbers -/

def isDigit (b : UInt8) : Bool := 48 ≤ b && b ≤ 57

/-- The digits of a part of a number. -/
structure DigitRun where
  /-- The number that the digits before them and the ones taken up write; it fits a 64-bit word. -/
  value : Nat
  /-- How many were taken up. -/
  used : Nat := 0
  /-- How many were not: the first that would not fit, and all behind it. -/
  unused : Nat := 0
deriving DecidableEq, Repr

namespace DigitRun

def push (run : DigitRun) (b : UInt8) : DigitRun :=
  let value := 10 * run.value + (b.toNat - 48)
  if run.unused = 0 ∧ value < wordSize 64 then { run with value := value, used := run.used + 1 }
  else { run with unused := run.unused + 1 }

def isEmpty (run : DigitRun) : Bool := run.used = 0 && run.unused = 0

end DigitRun

/-- Takes digits behind those of a run, and looks at what follows. -/
def digits : Nat → DigitRun → Reader DigitRun
  | 0, run => return run
  | fuel + 1, run => do
    match ← look with
    | some b =>
      if isDigit b then
        drop
        digits fuel (run.push b)
      else return run
    | none => return run

/-- Takes the digits of an exponent behind those taken; gives none as soon as it does not fit a
signed 32-bit word. -/
def exponentDigits : Nat → Nat → Reader (Option Nat)
  | 0, power => return some power
  | fuel + 1, power => do
    match ← look with
    | some b =>
      if isDigit b then
        drop
        let power := 10 * power + (b.toNat - 48)
        if power < wordSize 31 then exponentDigits fuel power else return none
      else return some power
    | none => return some power

/-- The number of a significand and a power of ten, if binary64 can hold it. -/
def scientific (minus : Bool) (significand : Nat) (exponent : Int) : Reader Numeral :=
  match Binary64.scientific? significand exponent with
  | some size => return .binary minus size
  | none => fail .hugeNumber

/-- Takes an exponent, whose letter was looked at. One beyond all bounds leaves nothing but zero or
a number that is too large. -/
def exponentPart (minus : Bool) (significand : Nat) (exponent : Int) : Reader Numeral := do
  drop
  let down ← match ← look with
    | some 0x2B => drop; pure false
    | some 0x2D => drop; pure true
    | _ => pure false
  match ← take with
  | none => fail .endInValue
  | some b =>
    if isDigit b then
      match ← exponentDigits (← fuel) (b.toNat - 48) with
      | some power =>
        scientific minus significand (if down then exponent - power else exponent + power)
      | none =>
        if significand ≠ 0 ∧ !down then fail .hugeNumber
        let _ ← digits (← fuel) ⟨0, 0, 0⟩
        scientific minus 0 0
    else fail .badNumber

def isExponent (b : Option UInt8) : Bool := b = some 0x65 || b = some 0x45

/-- Takes a fraction, whose point was looked at. -/
def fractionPart (minus : Bool) (significand : Nat) (exponent : Int) : Reader Numeral := do
  drop
  let run ← digits (← fuel) { value := significand }
  let next ← look
  let exponent := exponent - run.used
  if run.isEmpty then
    if next.isNone then fail .endInValue else fail .badNumber
  else if isExponent next then exponentPart minus run.value exponent
  else scientific minus run.value exponent

/-- Takes what may follow the whole part of a number. -/
def afterWhole (minus : Bool) (run : DigitRun) : Reader Numeral := do
  let next ← look
  let n := run.value
  if next = some 0x2E then fractionPart minus n run.unused
  else if isExponent next then exponentPart minus n run.unused
  else if 0 < run.unused then scientific minus n run.unused
  else if !minus then return .whole n
  else if 0 < n ∧ n ≤ wordSize 63 then return .negative n
  else scientific true n 0

/-- Takes a number, whose sign was taken. -/
def number (minus : Bool) : Reader Numeral := do
  match ← take with
  | none => fail .endInValue
  | some b =>
    if b = 48 then
      match ← look with
      | some d => if isDigit d then fail .badNumber else afterWhole minus { value := 0 }
      | none => afterWhole minus { value := 0 }
    else if isDigit b then
      afterWhole minus (← digits (← fuel) { value := b.toNat - 48 })
    else fail .badNumber

/-! ## Values that do not fit -/

/-- Reads the value whose first byte was looked at far enough to say that it is of another type
than the expected one. -/
def mismatch {α : Type} (first : UInt8) (expected : String) : Reader α := placed do
  match first with
  | 0x6E => drop; word (ascii "ull"); reject (.wrongType "null" expected)
  | 0x74 => drop; word (ascii "rue"); reject (.wrongType "boolean `true`" expected)
  | 0x66 => drop; word (ascii "alse"); reject (.wrongType "boolean `false`" expected)
  | 0x2D => drop; reject (.wrongType (← number true).describe expected)
  | 0x22 =>
    drop
    reject (.wrongType ("string " ++ Text.quoted (← stringBody).toList) expected)
  | 0x5B => reject (.wrongType "sequence" expected)
  | 0x7B => reject (.wrongType "map" expected)
  | b =>
    if isDigit b then reject (.wrongType (← number false).describe expected)
    else fail .noValue

/-! ## Values of one piece -/

def bool : Reader Bool := placed do
  match ← start with
  | 0x74 => drop; word (ascii "rue"); return true
  | 0x66 => drop; word (ascii "alse"); return false
  | b => mismatch b "a boolean"

/-- Reads a string; `expected` names what it stands for. -/
def stringFor (expected : String) : Reader String := placed do
  match ← start with
  | 0x22 => drop; stringBody
  | b => mismatch b expected

def string : Reader String := stringFor "a string"

/-- Reads a natural number below a bound; `expected` names its type. -/
def natural (bound : Nat) (expected : String) : Reader Nat := placed do
  let b ← start
  if b = 0x2D ∨ isDigit b then
    if b = 0x2D then drop
    match ← number (b = 0x2D) with
    | .whole n =>
      if n < bound then return n
      else reject (.wrongValue (Numeral.whole n).describe expected)
    | .negative n => reject (.wrongValue (Numeral.negative n).describe expected)
    | n => reject (.wrongType n.describe expected)
  else mismatch b expected

/-- Reads a value that may be missing. -/
def option {α : Type} (r : Reader α) : Reader (Option α) := do
  if (← space) = some 0x6E then
    drop
    word (ascii "ull")
    return none
  else some <$> r

def unit : Reader Unit := placed do
  match ← start with
  | 0x6E => drop; word (ascii "ull")
  | b => mismatch b "unit"

end Reader

end TraceFlow.Json
