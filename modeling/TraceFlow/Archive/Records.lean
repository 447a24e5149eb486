/-
TraceFlow.Archive.Records — reading the parts of a function map.

Each record is gathered field by field in a structure of its own, such as
`InstructionParts`, whose entries are set once they are read. Numbers have
to fit the words that hold them: addresses 64 bits, block numbers and
counts 32.
-/
import TraceFlow.Archive.Document
import TraceFlow.Json.Shape

namespace TraceFlow.Archive

open Json Json.Reader

/-! ## Words and fields -/

def address : Reader Address := natural (wordSize 64) "u64"

def size : Reader Nat := natural (wordSize 64) "usize"

def word32 : Reader Nat := natural (wordSize 32) "u32"

def byte : Reader UInt8 := UInt8.ofNat <$> natural (wordSize 8) "u8"

def blockMap {α : Type} (value : Reader α) : Reader (SortedMap BlockId α) :=
  SortedMap.ofList <$> members (numericKey (wordSize 32) "u32") value

def addressMap {α : Type} (value : Reader α) : Reader (SortedMap Address α) :=
  SortedMap.ofList <$> members (numericKey (wordSize 64) "u64") value

def nameMap {α : Type} (value : Reader α) : Reader (SortedMap String α) :=
  SortedMap.ofList <$> members key value

/-- A field that is held in one entry of `σ`. -/
def field {σ β : Type} (name : String) (read : Reader β) (held : σ → Option β)
    (put : σ → Option β → σ) : RecordField σ where
  name := name
  isRead s := (held s).isSome
  read s := return put s (some (← read))

/-- The field, except that a sequence may end before it. -/
def trailing {σ : Type} (f : RecordField σ) : RecordField σ := { f with mayEnd := true }

/-- What is held for a field that has to be there. -/
def need {β : Type} (name : String) : Option β → Except String β
  | some b => .ok b
  | none => .error name

/-! ## Instructions -/

/-- The fields of an instruction that were read. -/
structure InstructionParts where
  pc : Option Address := none
  opcode : Option (List UInt8) := none
  operand : Option (List UInt8) := none
  /-- The label; none if it is missing. -/
  label : Option (Option String) := none

def instructionRecord : Record InstructionParts Instruction where
  title := "struct Instruction"
  fields :=
    [field "pc" address (·.pc) fun s x => { s with pc := x },
      field "opcode" (array byte) (·.opcode) fun s x => { s with opcode := x },
      trailing (field "operand" (array byte) (·.operand) fun s x => { s with operand := x }),
      trailing (field "label" (option string) (·.label) fun s x => { s with label := x })]
  blank := {}
  value s := do
    let pc ← need "pc" s.pc
    let opcode ← need "opcode" s.opcode
    return { pc := pc, opcode := opcode, operand := s.operand.getD [], label := s.label.join }

/-! ## Blocks -/

def blockKind : Reader BlockKind := choice (BlockKind.all.map fun k => .plain k.tag k)

def linkKind : Reader LinkKind := choice (LinkKind.all.map fun k => .plain k.tag k)

structure EdgeParts where
  kind : Option LinkKind := none
  count : Option Nat := none

def edgeRecord : Record EdgeParts Edge where
  title := "struct Edge"
  fields :=
    [field "kind" linkKind (·.kind) fun s x => { s with kind := x },
      field "count" word32 (·.count) fun s x => { s with count := x }]
  blank := {}
  value s := return ⟨← need "kind" s.kind, ← need "count" s.count⟩

structure SyntheticParts where
  label : Option String := none
  mergeable : Option Bool := none

def syntheticRecord : Record SyntheticParts Synthetic where
  title := "struct Special"
  fields :=
    [field "label" string (·.label) fun s x => { s with label := x },
      field "mergeable" bool (·.mergeable) fun s x => { s with mergeable := x }]
  blank := {}
  value s := return ⟨← need "label" s.label, ← need "mergeable" s.mergeable⟩

structure BlockParts where
  instructions : Option (List Instruction) := none
  kind : Option BlockKind := none
  /-- What a synthetic block stands for; none if it is missing. -/
  synthetic : Option (Option Synthetic) := none
  /-- The place among the blocks at the address; none if it is missing. -/
  ordinal : Option (Option Nat) := none
  takenFound : Option Bool := none
  within : Option NameSet := none
  /-- The block that absorbed this one; none if it is missing. -/
  mergedInto : Option (Option BlockId) := none
  out : Option (SortedMap BlockId Edge) := none
  into : Option (SortedMap BlockId Nat) := none

def blockRecord : Record BlockParts Block where
  title := "struct Block"
  fields :=
    [field "insts" (array (record instructionRecord)) (·.instructions)
        fun s x => { s with instructions := x },
      field "kind" blockKind (·.kind) fun s x => { s with kind := x },
      field "special" (option (record syntheticRecord)) (·.synthetic)
        fun s x => { s with synthetic := x },
      field "ordinal" (option size) (·.ordinal) fun s x => { s with ordinal := x },
      field "taken_found" bool (·.takenFound) fun s x => { s with takenFound := x },
      field "within" (NameSet.ofNames <$> array string) (·.within)
        fun s x => { s with within := x },
      field "merged_into" (option word32) (·.mergedInto) fun s x => { s with mergedInto := x },
      field "tos" (blockMap (record edgeRecord)) (·.out) fun s x => { s with out := x },
      field "froms" (blockMap word32) (·.into) fun s x => { s with into := x }]
  blank := {}
  value s := do
    let instructions ← need "insts" s.instructions
    let kind ← need "kind" s.kind
    let takenFound ← need "taken_found" s.takenFound
    let within ← need "within" s.within
    let out ← need "tos" s.out
    let into ← need "froms" s.into
    return { instructions := instructions.toArray, kind := kind, synthetic := s.synthetic.join,
             ordinal := s.ordinal.join, takenFound := takenFound, within := within,
             mergedInto := s.mergedInto.join, out := out, into := into }

/-! ## Graphs -/

structure GraphParts where
  blocks : Option (List Block) := none
  index : Option (SortedMap Address (List BlockId)) := none
  digits : Option Nat := none

def graphRecord : Record GraphParts Graph where
  title := "struct Graph"
  fields :=
    [field "blocks" (array (record blockRecord)) (·.blocks) fun s x => { s with blocks := x },
      field "index" (addressMap (array word32)) (·.index) fun s x => { s with index := x },
      field "digits" size (·.digits) fun s x => { s with digits := x }]
  blank := {}
  value s := do
    let blocks ← need "blocks" s.blocks
    let index ← need "index" s.index
    let digits ← need "digits" s.digits
    return { blocks := blocks.toArray, index := index, digits := digits }

/-! ## Diagnostics -/

structure MissParts where
  retPc : Option Address := none
  target : Option Address := none
  line : Option Nat := none

/-- A return without a call. -/
def missRecord : Record MissParts Diagnostic where
  title := "struct variant Diagnostic::ReturnMiss"
  fields :=
    [field "ret_pc" address (·.retPc) fun s x => { s with retPc := x },
      field "target" address (·.target) fun s x => { s with target := x },
      field "line" size (·.line) fun s x => { s with line := x }]
  blank := {}
  value s := do
    let retPc ← need "ret_pc" s.retPc
    let target ← need "target" s.target
    let line ← need "line" s.line
    return .returnMiss retPc target line

/-- A block without a function. -/
def unclaimedRecord : Record (Option String) Diagnostic where
  title := "struct variant Diagnostic::UnclaimedBlock"
  fields := [field "name" string id fun _ x => x]
  blank := none
  value s := return .unclaimedBlock (← need "name" s)

def diagnostic : Reader Diagnostic :=
  choice [.ofRecord "ReturnMiss" missRecord, .ofRecord "UnclaimedBlock" unclaimedRecord]

/-! ## Counters -/

structure TallyParts where
  lines : Option Nat := none
  instructions : Option Nat := none
  skippedLines : Option Nat := none
  interruptMarkers : Option Nat := none
  interrupts : Option Nat := none
  calls : Option Nat := none
  returns : Option Nat := none
  returnMisses : Option Nat := none
  pendingFrames : Option Nat := none
  mergedBlocks : Option Nat := none

def tallyRecord : Record TallyParts Tally where
  title := "struct TraceStats"
  fields :=
    [field "lines" size (·.lines) fun s x => { s with lines := x },
      field "instructions" size (·.instructions) fun s x => { s with instructions := x },
      field "skipped_lines" size (·.skippedLines) fun s x => { s with skippedLines := x },
      field "interrupt_markers" size (·.interruptMarkers)
        fun s x => { s with interruptMarkers := x },
      field "interrupts" size (·.interrupts) fun s x => { s with interrupts := x },
      field "calls" size (·.calls) fun s x => { s with calls := x },
      field "returns" size (·.returns) fun s x => { s with returns := x },
      field "ret_misses" size (·.returnMisses) fun s x => { s with returnMisses := x },
      field "pending_frames" size (·.pendingFrames) fun s x => { s with pendingFrames := x },
      field "merged_blocks" size (·.mergedBlocks) fun s x => { s with mergedBlocks := x }]
  blank := {}
  value s := do
    let lines ← need "lines" s.lines
    let instructions ← need "instructions" s.instructions
    let skippedLines ← need "skipped_lines" s.skippedLines
    let interruptMarkers ← need "interrupt_markers" s.interruptMarkers
    let interrupts ← need "interrupts" s.interrupts
    let calls ← need "calls" s.calls
    let returns ← need "returns" s.returns
    let returnMisses ← need "ret_misses" s.returnMisses
    let pendingFrames ← need "pending_frames" s.pendingFrames
    let mergedBlocks ← need "merged_blocks" s.mergedBlocks
    return { lines := lines, instructions := instructions, skippedLines := skippedLines,
             interruptMarkers := interruptMarkers, interrupts := interrupts, calls := calls,
             returns := returns, returnMisses := returnMisses, pendingFrames := pendingFrames,
             mergedBlocks := mergedBlocks }

/-! ## Function maps -/

structure MapParts where
  graph : Option Graph := none
  functions : Option (SortedMap String BlockId) := none
  innerFunctions : Option (SortedMap String BlockId) := none
  diagnostics : Option (List Diagnostic) := none
  tally : Option Tally := none

def mapRecord : Record MapParts FunctionMap where
  title := "struct Cfg"
  fields :=
    [field "graph" (record graphRecord) (·.graph) fun s x => { s with graph := x },
      field "functions" (nameMap word32) (·.functions) fun s x => { s with functions := x },
      field "inner_functions" (nameMap word32) (·.innerFunctions)
        fun s x => { s with innerFunctions := x },
      field "diagnostics" (array diagnostic) (·.diagnostics)
        fun s x => { s with diagnostics := x },
      field "stats" (record tallyRecord) (·.tally) fun s x => { s with tally := x }]
  blank := {}
  value s := do
    let graph ← need "graph" s.graph
    let functions ← need "functions" s.functions
    let innerFunctions ← need "inner_functions" s.innerFunctions
    let diagnostics ← need "diagnostics" s.diagnostics
    let tally ← need "stats" s.tally
    return { graph := graph, functions := functions, innerFunctions := innerFunctions,
             diagnostics := diagnostics, tally := tally }

end TraceFlow.Archive
