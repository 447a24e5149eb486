/-
TraceFlow.Command.Arguments — what the words of a command line ask for.

* A word of two dashes and a name is a switch; so is each letter behind a
  single dash. Some switches take a value: what is left of the word, with
  or without an equals sign, or else the next word.
* Every other word names a log, and so does every word behind a bare pair
  of dashes.
* No switch may be given twice. Asking for the version or for help ends
  the reading at that word.
-/
import TraceFlow.Profile
import TraceFlow.Format
import TraceFlow.Note

namespace TraceFlow.Command

/-- A switch that is on or off. -/
inductive Flag where
  | dot
  /-- Draw functions and have them laid out. -/
  | svg
  | compare
  | text
  | json
  | csv
  /-- List the log line by line. -/
  | linear
  | keepLines
  /-- Use archives. -/
  | archive
  | verbose
deriving DecidableEq, Repr

/-- A switch that takes a value. -/
inductive Setting where
  | outputDir
  /-- After how many chunks a listing ends. -/
  | maxChunks
  | cpu
deriving DecidableEq, Repr

inductive Switch where
  /-- One that is on or off. -/
  | flag (f : Flag)
  /-- One that takes a value. -/
  | setting (s : Setting)
  | version
  | help
deriving DecidableEq, Repr

namespace Switch

def names : List (String × Switch) :=
  [("dot", .flag .dot), ("svg", .flag .svg), ("cmp", .flag .compare), ("text", .flag .text),
    ("json", .flag .json), ("csv", .flag .csv), ("linear", .flag .linear),
    ("keep-lines", .flag .keepLines), ("cache", .flag .archive), ("verbose", .flag .verbose),
    ("output-dir", .setting .outputDir), ("max-chunks", .setting .maxChunks),
    ("cpu", .setting .cpu), ("version", .version), ("help", .help)]

def letters : List (Char × Switch) :=
  [('o', .setting .outputDir), ('k', .flag .keepLines), ('n', .setting .maxChunks),
    ('v', .flag .verbose), ('V', .version), ('h', .help)]

def ofName? (name : String) : Option Switch := names.lookup name

def ofLetter? (letter : Char) : Option Switch := letters.lookup letter

end Switch

inductive Misuse where
  | unknownSwitch (word : String)
  | unexpectedValue (word : String)
  | missingValue
  /-- A switch has a value that it cannot have, or a log has no name. -/
  | badValue (value : String)
  | repeated
  | noLog
  | noAction
  /-- A switch for listings is given without the one that asks for them. -/
  | needsLinear
deriving DecidableEq, Repr

/-- Why a command line is no run. -/
inductive Stop where
  | version
  | help
  | misuse (m : Misuse)
deriving DecidableEq, Repr

structure Arguments where
  logs : List String := []
  flags : List Flag := []
  outputDir : Option String := none
  maxChunks : Option Nat := none
  cpu : Option Cpu := none
deriving DecidableEq, Repr

namespace Arguments

def has (a : Arguments) (f : Flag) : Bool := a.flags.contains f

/-- The CPU that wrote the logs, the first one if none is named. -/
def cpuOrFirst (a : Arguments) : Cpu := a.cpu.getD .gameBoy

def writesFiles (a : Arguments) : Bool :=
  [Flag.dot, .svg, .text, .json, .csv].any a.has

def hasAction (a : Arguments) : Bool := a.writesFiles || a.has .compare || a.has .linear

def level (a : Arguments) : Level := if a.has .verbose then .debug else .info

/-! ## Values -/

/-- The number that a word spells: decimal digits, a plus sign before them or not, within a 64-bit
word. -/
def number? (word : String) : Option Nat :=
  let digits := match word.toList with
    | '+' :: rest => rest
    | cs => cs
  if digits ≠ [] ∧ digits.all Char.isDigit then
    let n := digits.foldl (fun n c => 10 * n + (c.toNat - '0'.toNat)) 0
    if n < wordSize 64 then some n else none
  else none

def turnOn (a : Arguments) (f : Flag) : Except Stop Arguments :=
  if a.has f then throw (.misuse .repeated) else return { a with flags := a.flags ++ [f] }

def set (a : Arguments) (s : Setting) (value : String) : Except Stop Arguments :=
  match s with
  | .outputDir =>
    if a.outputDir.isSome then throw (.misuse .repeated)
    else if value.isEmpty then throw (.misuse (.badValue value))
    else return { a with outputDir := some value }
  | .maxChunks =>
    if a.maxChunks.isSome then throw (.misuse .repeated)
    else
      match number? value with
      | some n => return { a with maxChunks := some n }
      | none => throw (.misuse (.badValue value))
  | .cpu =>
    if a.cpu.isSome then throw (.misuse .repeated)
    else
      match Cpu.ofOption? value with
      | some c => return { a with cpu := some c }
      | none => throw (.misuse (.badValue value))

def addLog (a : Arguments) (log : String) : Except Stop Arguments :=
  if log.isEmpty then throw (.misuse (.badValue log)) else return { a with logs := a.logs ++ [log] }

/-! ## Words -/

/-- A switch that was read, and the one whose value is still to come. -/
abbrev Step := Arguments × Option Setting

/-- Reads a switch by its name, with a value behind an equals sign or none. -/
def readName (a : Arguments) (word : List Char) : Except Stop Step :=
  let name := String.ofList (word.takeWhile (· ≠ '='))
  let value? := match word.dropWhile (· ≠ '=') with
    | _ :: value => some (String.ofList value)
    | [] => none
  match Switch.ofName? name, value? with
  | none, _ => throw (.misuse (.unknownSwitch name))
  | some (.setting s), some value => return (← a.set s value, none)
  | some (.setting s), none => return (a, some s)
  | some _, some _ => throw (.misuse (.unexpectedValue name))
  | some (.flag f), none => return (← a.turnOn f, none)
  | some .version, none => throw .version
  | some .help, none => throw .help

/-- Reads switches by their letters; what follows one that takes a value is its value. -/
def readLetters (a : Arguments) : List Char → Except Stop Step
  | [] => return (a, none)
  | letter :: rest =>
    match Switch.ofLetter? letter with
    | none => throw (.misuse (.unknownSwitch letter.toString))
    | some .version => throw .version
    | some .help => throw .help
    | some (.flag f) => do readLetters (← a.turnOn f) rest
    | some (.setting s) =>
      match rest with
      | [] => return (a, some s)
      | '=' :: value => do return (← a.set s (String.ofList value), none)
      | value => do return (← a.set s (String.ofList value), none)

def readLogs (a : Arguments) (logs : List String) : Except Stop Arguments := logs.foldlM addLog a

/-- Reads words, given the switch whose value is still to come. -/
def readFrom (a : Arguments) : Option Setting → List String → Except Stop Arguments
  | none, [] => return a
  | some _, [] => throw (.misuse .missingValue)
  | pending, word :: words =>
    match pending, word.toList with
    | some _, '-' :: _ :: _ => throw (.misuse .missingValue)
    | some s, _ => do readFrom (← a.set s word) none words
    | none, ['-', '-'] => readLogs a words
    | none, '-' :: '-' :: name => do
      let (a, next) ← readName a name
      readFrom a next words
    | none, '-' :: c :: rest => do
      let (a, next) ← readLetters a (c :: rest)
      readFrom a next words
    | none, _ => do readFrom (← a.addLog word) none words

/-- What is missing from a command line whose words are right. -/
def lack? (a : Arguments) : Option Misuse :=
  if a.logs.isEmpty then some .noLog
  else if !a.hasAction then some .noAction
  else if !a.has .linear && (a.has .keepLines || a.maxChunks.isSome) then some .needsLinear
  else none

def read (words : List String) : Except Stop Arguments := do
  let a ← readFrom {} none words
  match a.lack? with
  | some m => throw (.misuse m)
  | none => return a

end Arguments

end TraceFlow.Command
