/-
TraceFlow.Proofs.Sheet.Document — the blocks and edges of a function are
read from its JSON document.

A `FunctionEntry` is a document of a function taken apart, down to its texts
and counts, with the structures for blocks, edges and instructions below it.
It stands between the map and the document, because the document shows more
than an outline has, and a reader that only looked for the outline could
miss that a field has the wrong form.

* `functionRecord` reads an entry, as a record in the manner of the archive,
  with records for its parts; the label and the special text of a block may
  be missing. `FunctionEntry.document` is the document that it is read from,
  and `FunctionEntry.reads` says so for every entry whose counts fit their
  words, whatever its texts are. Like the documents of an archive it is
  proved from the inside out.
* `shown` is the entry of a function of a map, and `document_shown` says that
  the function's document is the entry's. This is the only place where the
  program's own writer is opened.
* `BlockEntry.outline?` makes the outline of a block; for a block of the map
  it is the one that outlines list (`outline?_shownBlock`).

`read?_render` composes the three, from the bytes of the text to the name and
the outline of the function.
-/
import TraceFlow.Proofs.Archive
import TraceFlow.Proofs.Graph.Absorb
import TraceFlow.Proofs.Sheet.Outline
import TraceFlow.Sheet.Document

namespace TraceFlow.Sheet.Document

open Json Json.Reader
open Archive (field need word32 reads_field reads_word32)

/-! ## Entries -/

structure InstructionEntry where
  pc : String
  opcode : String
  operand : String
  label : Option String
deriving DecidableEq, Repr

structure SuccessorEntry where
  target : String
  kind : String
  count : Nat
deriving DecidableEq, Repr

structure BlockEntry where
  name : String
  /-- The word for what it starts. -/
  kind : String
  /-- What a synthetic block shows. -/
  special : Option String
  instructions : List InstructionEntry
  successors : List SuccessorEntry
deriving DecidableEq, Repr

structure FunctionEntry where
  name : String
  entry : String
  within : List String
  blocks : List BlockEntry
deriving DecidableEq, Repr

def InstructionEntry.document (i : InstructionEntry) : Json :=
  .object ([("pc", .string i.pc), ("opcode", .string i.opcode), ("operand", .string i.operand)] ++
    (i.label.map fun label => ("label", .string label)).toList)

def SuccessorEntry.document (s : SuccessorEntry) : Json :=
  .object [("to", .string s.target), ("kind", .string s.kind), ("count", .number s.count)]

def BlockEntry.document (b : BlockEntry) : Json :=
  .object ([("name", .string b.name), ("kind", .string b.kind)] ++
    (b.special.map fun special => ("special", .string special)).toList ++
    [("instructions", .ofList InstructionEntry.document b.instructions),
      ("successors", .ofList SuccessorEntry.document b.successors)])

def FunctionEntry.document (f : FunctionEntry) : Json :=
  .object [("name", .string f.name), ("entry", .string f.entry),
    ("within", .ofList .string f.within), ("blocks", .ofList BlockEntry.document f.blocks)]

/-! ## Reading entries -/

structure InstructionFields where
  pc : Option String := none
  opcode : Option String := none
  operand : Option String := none
  /-- The label; none if it is missing. -/
  label : Option (Option String) := none

def instructionRecord : Record InstructionFields InstructionEntry where
  title := "struct InstructionJson"
  fields :=
    [field "pc" string (·.pc) fun s x => { s with pc := x },
      field "opcode" string (·.opcode) fun s x => { s with opcode := x },
      field "operand" string (·.operand) fun s x => { s with operand := x },
      field "label" (option string) (·.label) fun s x => { s with label := x }]
  blank := {}
  value s := return ⟨← need "pc" s.pc, ← need "opcode" s.opcode, ← need "operand" s.operand,
    s.label.join⟩

structure SuccessorFields where
  target : Option String := none
  kind : Option String := none
  count : Option Nat := none

def successorRecord : Record SuccessorFields SuccessorEntry where
  title := "struct LinkJson"
  fields :=
    [field "to" string (·.target) fun s x => { s with target := x },
      field "kind" string (·.kind) fun s x => { s with kind := x },
      field "count" word32 (·.count) fun s x => { s with count := x }]
  blank := {}
  value s := return ⟨← need "to" s.target, ← need "kind" s.kind, ← need "count" s.count⟩

structure BlockFields where
  name : Option String := none
  /-- The word for what it starts. -/
  kind : Option String := none
  /-- What a synthetic block shows; none if it is missing. -/
  special : Option (Option String) := none
  instructions : Option (List InstructionEntry) := none
  successors : Option (List SuccessorEntry) := none

def blockRecord : Record BlockFields BlockEntry where
  title := "struct BlockJson"
  fields :=
    [field "name" string (·.name) fun s x => { s with name := x },
      field "kind" string (·.kind) fun s x => { s with kind := x },
      field "special" (option string) (·.special) fun s x => { s with special := x },
      field "instructions" (array (record instructionRecord)) (·.instructions)
        fun s x => { s with instructions := x },
      field "successors" (array (record successorRecord)) (·.successors)
        fun s x => { s with successors := x }]
  blank := {}
  value s := return ⟨← need "name" s.name, ← need "kind" s.kind, s.special.join,
    ← need "instructions" s.instructions, ← need "successors" s.successors⟩

structure FunctionFields where
  name : Option String := none
  entry : Option String := none
  within : Option (List String) := none
  blocks : Option (List BlockEntry) := none

def functionRecord : Record FunctionFields FunctionEntry where
  title := "struct FunctionJson"
  fields :=
    [field "name" string (·.name) fun s x => { s with name := x },
      field "entry" string (·.entry) fun s x => { s with entry := x },
      field "within" (array string) (·.within) fun s x => { s with within := x },
      field "blocks" (array (record blockRecord)) (·.blocks) fun s x => { s with blocks := x }]
  blank := {}
  value s := return ⟨← need "name" s.name, ← need "entry" s.entry, ← need "within" s.within,
    ← need "blocks" s.blocks⟩

def SuccessorEntry.link? (source : String) (s : SuccessorEntry) : Option WrittenLink := do
  let kind ← LinkKind.ofName? s.kind
  return ⟨source, s.target, kind, s.count⟩

def BlockEntry.outline? (b : BlockEntry) : Option (String × List WrittenLink) := do
  let links ← b.successors.mapM (·.link? b.name)
  return (b.name, links)

def functionOf? (text : String) : Option FunctionEntry :=
  (Reader.read? (record functionRecord) (Utf8.encode text)).toOption

/-- The name and the outline of the function in a text. -/
def read? (text : String) : Option (String × Outline) := do
  let f ← functionOf? text
  let blocks ← f.blocks.mapM (·.outline?)
  return (f.name, .ofBlocks blocks)

/-! ## Entries are read back -/

theorem InstructionEntry.reads (i : InstructionEntry) :
    Reads (record instructionRecord) i.document i := by
  -- the label is a member only if there is one
  have hlabel : Gathers instructionRecord.fields
      (i.label.map fun label => ("label", Json.string label)).toList
      ⟨some i.pc, some i.opcode, some i.operand, none⟩
      ⟨some i.pc, some i.opcode, some i.operand, i.label.map some⟩ := by
    cases i.label with
    | none => exact .done _
    | some label => exact .next rfl rfl (reads_field (.present (.string label) nofun) _) (.done _)
  have hvalue : instructionRecord.value
      ⟨some i.pc, some i.opcode, some i.operand, i.label.map some⟩ = .ok i := by
    obtain ⟨pc, opcode, operand, label⟩ := i
    cases label <;> rfl
  refine .record ?_ hvalue
  refine .next rfl rfl (reads_field (.string i.pc) _) ?_
  refine .next rfl rfl (reads_field (.string i.opcode) _) ?_
  refine .next rfl rfl (reads_field (.string i.operand) _) ?_
  exact hlabel

def SuccessorEntry.Fits (s : SuccessorEntry) : Prop := s.count < wordSize 32

theorem SuccessorEntry.Fits.reads {s : SuccessorEntry} (h : s.Fits) :
    Reads (record successorRecord) s.document s := by
  refine .record (s := ⟨some s.target, some s.kind, some s.count⟩) ?_ rfl
  refine .next rfl rfl (reads_field (.string s.target) _) ?_
  refine .next rfl rfl (reads_field (.string s.kind) _) ?_
  refine .next rfl rfl (reads_field (reads_word32 h) _) ?_
  exact .done _

def BlockEntry.Fits (b : BlockEntry) : Prop := ∀ s ∈ b.successors, s.Fits

theorem BlockEntry.Fits.reads {b : BlockEntry} (h : b.Fits) :
    Reads (record blockRecord) b.document b := by
  have hinstructions : Reads (array (record instructionRecord))
      (.ofList InstructionEntry.document b.instructions) b.instructions :=
    .array fun i _ => i.reads
  have hsuccessors : Reads (array (record successorRecord))
      (.ofList SuccessorEntry.document b.successors) b.successors :=
    .array fun s hs => (h s hs).reads
  have hrest : Gathers blockRecord.fields
      [("instructions", .ofList InstructionEntry.document b.instructions),
        ("successors", .ofList SuccessorEntry.document b.successors)]
      ⟨some b.name, some b.kind, b.special.map some, none, none⟩
      ⟨some b.name, some b.kind, b.special.map some, some b.instructions, some b.successors⟩ := by
    refine .next rfl rfl (reads_field hinstructions _) ?_
    exact .next rfl rfl (reads_field hsuccessors _) (.done _)
  -- what a synthetic block shows is a member only if the block is one
  have hspecial : Gathers blockRecord.fields
      ((b.special.map fun special => ("special", Json.string special)).toList ++
        [("instructions", .ofList InstructionEntry.document b.instructions),
          ("successors", .ofList SuccessorEntry.document b.successors)])
      ⟨some b.name, some b.kind, none, none, none⟩
      ⟨some b.name, some b.kind, b.special.map some, some b.instructions, some b.successors⟩ := by
    cases hb : b.special with
    | none =>
      rw [hb] at hrest
      exact hrest
    | some special =>
      rw [hb] at hrest
      exact .next rfl rfl (reads_field (.present (.string special) nofun) _) hrest
  have hvalue : blockRecord.value ⟨some b.name, some b.kind, b.special.map some,
      some b.instructions, some b.successors⟩ = .ok b := by
    obtain ⟨name, kind, special, instructions, successors⟩ := b
    cases special <;> rfl
  refine .record ?_ hvalue
  rw [List.append_assoc]
  refine .next rfl rfl (reads_field (.string b.name) _) ?_
  refine .next rfl rfl (reads_field (.string b.kind) _) ?_
  exact hspecial

def FunctionEntry.Fits (f : FunctionEntry) : Prop := ∀ b ∈ f.blocks, b.Fits

theorem FunctionEntry.Fits.reads {f : FunctionEntry} (h : f.Fits) :
    Reads (record functionRecord) f.document f := by
  have hwithin : Reads (array string) (.ofList .string f.within) f.within :=
    .array fun s _ => Reads.string s
  have hblocks : Reads (array (record blockRecord)) (.ofList BlockEntry.document f.blocks)
      f.blocks := .array fun b hb => (h b hb).reads
  refine .record (s := ⟨some f.name, some f.entry, some f.within, some f.blocks⟩) ?_ rfl
  refine .next rfl rfl (reads_field (.string f.name) _) ?_
  refine .next rfl rfl (reads_field (.string f.entry) _) ?_
  refine .next rfl rfl (reads_field hwithin _) ?_
  refine .next rfl rfl (reads_field hblocks _) ?_
  exact .done _

/-! ## The functions of a map -/

def shownInstruction (g : Graph) (i : Instruction) : InstructionEntry :=
  ⟨Hex.padded g.digits i.pc, Hex.ofBytes i.opcode, Hex.ofBytes i.operand, i.label⟩

def shownSuccessor (g : Graph) (l : Link) : SuccessorEntry :=
  ⟨g.name l.target, l.kind.name, l.count⟩

def shownBlock (g : Graph) (id : BlockId) : BlockEntry where
  name := g.name id
  kind := (g.block id).kind.word
  special := (g.block id).synthetic.map (·.label)
  instructions := (shownInstructions (g.block id)).map (shownInstruction g)
  successors := (g.linksFrom id).map (shownSuccessor g)

def shown (m : FunctionMap) (function : String) (entry : BlockId) : FunctionEntry where
  name := function
  entry := m.graph.name entry
  within := (m.graph.block entry).within.names.filter fun w => w ≠ function
  blocks := (m.walk entry).map (shownBlock m.graph)

theorem ofList_map {α β : Type} (doc : β → Json) (f : α → β) (xs : List α) :
    Json.ofList doc (xs.map f) = Json.ofList (fun x => doc (f x)) xs := by
  rw [Json.ofList, Json.ofList, List.map_map]
  rfl

theorem document_shownBlock (g : Graph) (id : BlockId) :
    (shownBlock g id).document = block g id := by
  unfold BlockEntry.document shownBlock block
  simp only [ofList_map, Option.map_map]
  rfl

/-- The document of a function is that of its entry. -/
theorem document_shown (m : FunctionMap) (name : String) (entry : BlockId) :
    (shown m name entry).document = function m name entry := by
  unfold FunctionEntry.document shown function
  simp only [ofList_map, document_shownBlock]

/-- The edges of a function have counts that fit their words. -/
def CountsFit (m : FunctionMap) (entry : BlockId) : Prop :=
  ∀ l ∈ m.links entry, l.count < wordSize 32

theorem fits_shown {m : FunctionMap} {entry : BlockId} (h : CountsFit m entry) (name : String) :
    (shown m name entry).Fits := by
  refine List.forall_mem_map.2 fun id hid => List.forall_mem_map.2 fun l hl => ?_
  exact h l (List.mem_flatMap.2 ⟨id, hid, hl⟩)

theorem outline?_shownBlock (g : Graph) (id : BlockId) :
    (shownBlock g id).outline? = some (g.blockOutline id) := by
  have hlinks : (shownBlock g id).successors.mapM (·.link? (shownBlock g id).name) =
      some ((g.linksFrom id).map (·.written g.name)) := by
    refine Text.mapM_map_eq_some fun l hl => ?_
    simp [SuccessorEntry.link?, shownSuccessor, shownBlock, Link.written,
      (Graph.mem_linksFrom_iff.1 hl).1]
  unfold BlockEntry.outline?
  rw [hlinks]
  rfl

/-- **A JSON document tells the name and the outline of its function**, whatever texts are in it. -/
theorem read?_render {m : FunctionMap} {entry : BlockId} (h : CountsFit m entry) (name : String) :
    read? (render m name entry) = some (name, m.outline entry) := by
  have hentry : functionOf? (render m name entry) = some (shown m name entry) := by
    unfold functionOf? render
    rw [← document_shown, Json.pretty, (fits_shown h name).reads.read?_render .lines]
    rfl
  have hblocks : (shown m name entry).blocks.mapM (·.outline?) =
      some ((m.walk entry).map m.graph.blockOutline) :=
    Text.mapM_map_eq_some fun id _ => outline?_shownBlock m.graph id
  unfold read?
  rw [hentry, Option.bind_eq_bind, Option.bind_some, hblocks, m.outline_eq_ofBlocks]
  rfl

end TraceFlow.Sheet.Document
