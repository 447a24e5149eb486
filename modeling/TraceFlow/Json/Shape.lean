/-
TraceFlow.Json.Shape — reading sequences, objects, records and
alternatives.

* `array` and `members` read what has many parts of one kind.
* A `Record` is read field by field, from an object in any order or from
  a sequence in the fields' own order. Unknown members are passed over
  (`skipValue`); a field given twice, or missing without a default, is a
  fault.
* `choice` reads one of several named alternatives.
-/
import TraceFlow.Json.Reader

namespace TraceFlow.Json.Reader

/-! ## Sequences -/

/-- Whether another item follows; commas between items are taken. -/
def moreItems (first : Bool) : Reader Bool := do
  match ← space with
  | none => fail .endInArray
  | some 0x5D => return false
  | some b =>
    if first then return true
    else if b = 0x2C then
      drop
      match ← space with
      | some 0x5D => fail .trailingComma
      | some _ => return true
      | none => fail .endInValue
    else fail .noItemEnd

def endItems : Reader Unit := do
  match ← space with
  | some 0x5D => drop
  | some 0x2C =>
    drop
    match ← space with
    | some 0x5D => fail .trailingComma
    | _ => fail .trailingText
  | some _ => fail .trailingText
  | none => fail .endInArray

def items {α : Type} (item : Reader α) : Nat → Bool → Reader (List α)
  | 0, _ => fail .endInArray
  | fuel + 1, first => do
    if ← moreItems first then
      let a ← item
      return a :: (← items item fuel false)
    else return []

def array {α : Type} (item : Reader α) : Reader (List α) := placed do
  match ← start with
  | 0x5B => drop; closing (do items item (← fuel) true) endItems
  | b => mismatch b "a sequence"

/-! ## Objects -/

/-- Whether another member follows; commas between members are taken. -/
def moreMembers (first : Bool) : Reader Bool := do
  match ← space with
  | none => fail .endInObject
  | some 0x7D => return false
  | some b =>
    if first then
      if b = 0x22 then return true else fail .noKey
    else if b = 0x2C then
      drop
      match ← space with
      | some 0x22 => return true
      | some 0x7D => fail .trailingComma
      | some _ => fail .noKey
      | none => fail .endInValue
    else fail .noMemberEnd

def endMembers : Reader Unit := do
  match ← space with
  | some 0x7D => drop
  | some 0x2C => fail .trailingComma
  | some _ => fail .trailingText
  | none => fail .endInObject

def colon : Reader Unit := do
  match ← space with
  | some 0x3A => drop
  | some _ => fail .noColon
  | none => fail .endInObject

def key : Reader String := do
  drop
  stringBody

/-- Reads a key that is a number in quotes. -/
def numericKey (bound : Nat) (expected : String) : Reader Nat := do
  drop
  match ← look with
  | none => fail .noNumericKey
  | some b =>
    if b = 0x2D ∨ isDigit b then
      let n ← natural bound expected
      if (← look) = some 0x22 then
        drop
        return n
      else fail .noClosingQuote
    else fail .noNumericKey

def membersFrom {κ α : Type} (key : Reader κ) (value : Reader α) :
    Nat → Bool → Reader (List (κ × α))
  | 0, _ => fail .endInObject
  | fuel + 1, first => do
    if ← moreMembers first then
      let k ← key
      colon
      let a ← value
      return (k, a) :: (← membersFrom key value fuel false)
    else return []

/-- Reads an object whose members are of one kind. -/
def members {κ α : Type} (key : Reader κ) (value : Reader α) : Reader (List (κ × α)) := placed do
  match ← start with
  | 0x7B => drop; closing (do membersFrom key value (← fuel) true) endMembers
  | b => mismatch b "a map"

/-! ## Passing over values -/

/-- Takes the inside of a string and its closing quote, whatever it stands for. -/
def skipString : Nat → Reader Unit
  | 0 => fail .endInString
  | fuel + 1 => do
    let b ← stringByte
    if b = 0x22 then return
    else if b = 0x5C then
      let e ← stringByte
      if e = 0x75 then
        let _ ← hexUnit
      else if !([0x22, 0x5C, 0x2F, 0x62, 0x66, 0x6E, 0x72, 0x74].contains e) then
        fail .badEscape
      skipString fuel
    else if b < 0x20 then fail .controlCharacter
    else skipString fuel

/-- Takes digits, and looks at what follows; says whether there are any. -/
def skipDigits : Reader Bool := do
  return !(← digits (← fuel) { value := 0 }).isEmpty

/-- Takes a number, whose sign was taken. -/
def skipNumber : Reader Unit := do
  match ← take with
  | none => fail .badNumber
  | some b =>
    if b = 48 then
      if ((← look).map isDigit).getD false then fail .badNumber
    else if isDigit b then
      let _ ← skipDigits
    else fail .badNumber
  if (← look) = some 0x2E then
    drop
    if !(← skipDigits) then fail .badNumber
  if isExponent (← look) then
    drop
    let sign ← look
    if sign = some 0x2B ∨ sign = some 0x2D then drop
    match ← take with
    | none => fail .badNumber
    | some b =>
      if isDigit b then
        let _ ← skipDigits
      else fail .badNumber

/-- What a value is open in. -/
inductive Enclosure where
  | array
  | object
deriving DecidableEq, Repr

/-- Takes the key and colon of a member. -/
def skipKey : Reader Unit := do
  match ← space with
  | some 0x22 => drop
  | some _ => fail .noKey
  | none => fail .endInObject
  skipString (← fuel)
  colon

/-- Takes one value of one piece, or the beginning of one with parts. -/
def skipPiece : Reader (Option Enclosure) := do
  match ← start with
  | 0x6E => drop; word (ascii "ull"); return none
  | 0x74 => drop; word (ascii "rue"); return none
  | 0x66 => drop; word (ascii "alse"); return none
  | 0x2D => drop; skipNumber; return none
  | 0x22 => drop; skipString (← fuel); return none
  | 0x5B => drop; return some .array
  | 0x7B => drop; return some .object
  | b => if isDigit b then skipNumber; return none else fail .noValue

/-- Takes the ends of values with parts, as far as they close right here. Gives those that are
still open; after a comma, or at the start of one (`comma` is false), its next part follows. -/
def skipEnds : Nat → Bool → List Enclosure → Reader (List Enclosure)
  | 0, _, enclosures => return enclosures
  | _, _, [] => return []
  | fuel + 1, comma, inner :: outer => do
    match ← space with
    | none => fail (if inner = .array then .endInArray else .endInObject)
    | some b =>
      if b = 0x2C ∧ comma then
        drop
        return inner :: outer
      else if (b = 0x5D ∧ inner = .array) ∨ (b = 0x7D ∧ inner = .object) then
        drop
        skipEnds fuel true outer
      else if comma then fail (if inner = .array then .noItemEnd else .noMemberEnd)
      else return inner :: outer

/-- Takes a value, given those that are open around it. -/
def skipFrom : Nat → List Enclosure → Reader Unit
  | 0, _ => fail .endInValue
  | fuel + 1, enclosures => do
    let open_ ← match ← skipPiece with
      | some e => skipEnds (fuel + 1) false (e :: enclosures)
      | none => skipEnds (fuel + 1) true enclosures
    match open_ with
    | [] => return
    | .array :: _ => skipFrom fuel open_
    | .object :: _ => skipKey; skipFrom fuel open_

/-- Takes a value of any type. -/
def skipValue : Reader Unit := do
  skipFrom (← fuel) []

/-! ## Records -/

/-- A field of a record that is gathered in `σ`. -/
structure RecordField (σ : Type) where
  name : String
  isRead : σ → Bool
  read : σ → Reader σ
  /-- Whether a sequence may end before the field. -/
  mayEnd : Bool := false

/-- A record: its name, its fields, and its value once they are read. -/
structure Record (σ α : Type) where
  /-- What messages call the record. -/
  title : String
  fields : List (RecordField σ)
  /-- Nothing read yet. -/
  blank : σ
  /-- The value, or the first field that is missing. -/
  value : σ → Except String α

def recordMembers {σ : Type} (fields : List (RecordField σ)) : Nat → Bool → σ → Reader σ
  | 0, _, _ => fail .endInObject
  | fuel + 1, first, s => do
    if ← moreMembers first then
      let name ← key
      match fields.find? (·.name = name) with
      | some f =>
        if f.isRead s then reject (.repeatedField name)
        colon
        let s ← f.read s
        recordMembers fields fuel false s
      | none =>
        colon
        skipValue
        recordMembers fields fuel false s
    else return s

def recordItems {σ : Type} (title : String) (total : Nat) :
    List (RecordField σ) → Bool → Nat → σ → Reader σ
  | [], _, _, s => return s
  | f :: fields, first, n, s => do
    if ← moreItems first then
      recordItems title total fields false (n + 1) (← f.read s)
    else if f.mayEnd then recordItems title total fields first (n + 1) s
    else
      let unit := if total = 1 then " element" else " elements"
      reject (.wrongLength n (title ++ " with " ++ Nat.repr total ++ unit))

/-- The value of a record's fields; a missing one is a fault. -/
def recordValue {σ α : Type} (r : Record σ α) (s : σ) : Reader α :=
  match r.value s with
  | .ok a => return a
  | .error name => reject (.missingField name)

def record {σ α : Type} (r : Record σ α) : Reader α := placed do
  match ← start with
  | 0x7B =>
    drop
    closing (do recordValue r (← recordMembers r.fields (← fuel) true r.blank)) endMembers
  | 0x5B =>
    drop
    closing (do recordValue r (← recordItems r.title r.fields.length r.fields true 0 r.blank))
      endItems
  | b => mismatch b r.title

/-! ## Alternatives -/

/-- An alternative: its name, and how its value is read behind the name and from the name alone. -/
structure Choice (α : Type) where
  name : String
  /-- Reads the value behind the name and a colon. -/
  read : Reader α
  /-- Reads nothing: the value of the name alone, if it may stand alone. -/
  bare : Reader α

def chosen {α : Type} (choices : List (Choice α)) : Reader (Choice α) := placed do
  let name ← stringFor "variant identifier"
  match choices.find? (·.name = name) with
  | some c => return c
  | none => reject (.unknownChoice name (choices.map (·.name)))

/-- The alternative that the key of an object of one member names. -/
def soleKey {α : Type} (choices : List (Choice α)) : Reader (Choice α) := do
  match ← space with
  | some 0x22 => chosen choices
  | some 0x7D => fail .noValue
  | some _ => fail .noKey
  | none => fail .endInObject

/-- Reads one of several alternatives: a name alone, or an object of one member. -/
def choice {α : Type} (choices : List (Choice α)) : Reader α := do
  match ← space with
  | none => fail .endInValue
  | some 0x22 => (← chosen choices).bare
  | some 0x7B =>
    drop
    let c ← soleKey choices
    colon
    let a ← c.read
    match ← space with
    | some 0x7D => drop; return a
    | some _ => fail .noValue
    | none => fail .endInObject
  | some _ => fail .noValue

/-- An alternative that is nothing but its name. -/
def Choice.plain {α : Type} (name : String) (a : α) : Choice α where
  name := name
  read := do unit; return a
  bare := return a

/-- An alternative with a record behind its name. -/
def Choice.ofRecord {σ α : Type} (name : String) (r : Record σ α) : Choice α where
  name := name
  read := record r
  bare := reject (.wrongType "unit variant" "struct variant")

/-! ## Whole documents -/

/-- Reads a whole document: the value, and nothing but white space behind it. -/
def read? {α : Type} (r : Reader α) (bytes : List UInt8) : Except Misfit α :=
  let whole : Reader α := do
    let a ← r
    match ← space with
    | some _ => fail .trailingText
    | none => return a
  (whole.run (.start bytes)).run.1

end TraceFlow.Json.Reader
