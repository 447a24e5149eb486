/-
TraceFlow.Graph.Basic — the arena of blocks and its address index.

* Blocks are numbered in order of creation and never go away. The numbers
  are unbounded; a program that keeps them in words of 32 bits does the
  same as long as a graph has fewer than 2^32 blocks.
* The index lists the blocks at each address that are still to be worked
  on; `insert` and `place` enter a block, `unindex` takes it out, and
  `takeOut` says whether it was listed.
* `place` gives an instruction its block: the indexed one with the same
  address and opcode, or a new one. Several blocks at one address are
  numbered, so that their names differ.
-/
import TraceFlow.Block
import TraceFlow.Profile

namespace TraceFlow

/-- Blocks, the index of their addresses, and the digits that addresses are written with. -/
structure Graph where
  blocks : Array Block := #[]
  /-- The blocks listed at each address, in order of entry. -/
  index : SortedMap Address (List BlockId) := ∅
  /-- Hex digits of an address. -/
  digits : Nat
deriving DecidableEq

namespace Graph

def new (digits : Nat) : Graph := { digits := digits }

def forProfile (p : Profile) : Graph := new p.addressDigits

/-- The number of blocks ever created. -/
def size (g : Graph) : Nat := g.blocks.size

def isEmpty (g : Graph) : Bool := g.blocks.isEmpty

def block (g : Graph) (id : BlockId) : Block := (g.blocks[id]?).getD Block.missing

def ids (g : Graph) : List BlockId := List.range g.size

def modify (g : Graph) (id : BlockId) (f : Block → Block) : Graph :=
  { g with blocks := g.blocks.modify id f }

@[simp] theorem size_modify (g : Graph) (id : BlockId) (f : Block → Block) :
    (g.modify id f).size = g.size := by
  simp [modify, size]

theorem block_modify (g : Graph) (id : BlockId) (f : Block → Block) (j : BlockId) :
    (g.modify id f).block j = if id = j ∧ j < g.size then f (g.block j) else g.block j := by
  unfold block modify size
  simp only [Array.getElem?_modify]
  by_cases h : id = j
  · by_cases hj : j < g.blocks.size <;> simp [h, hj]
  · simp [h]

theorem block_of_size_le {g : Graph} {id : BlockId} (h : g.size ≤ id) :
    g.block id = Block.missing := by
  unfold block size at *
  simp [h]

/-! ## Names and listings -/

def name (g : Graph) (id : BlockId) : String := (g.block id).name.render g.digits

/-- The text of a block: a line for each instruction, or the label of a synthetic block set in as
far as instructions are. -/
def listing (g : Graph) (id : BlockId) : String :=
  match (g.block id).synthetic with
  | some s => "    " ++ String.ofList (List.replicate g.digits ' ') ++ "  " ++ s.label
  | none => "\n".intercalate ((g.block id).instructions.toList.map (·.listing g.digits))

/-! ## Creating blocks -/

/-- A new block, with its number; the index does not list it. -/
def alloc (g : Graph) (b : Block) : Graph × BlockId :=
  let id := g.size
  ({ g with blocks := g.blocks.push b }, id)

def listedAt (g : Graph) (pc : Address) : List BlockId := (g.index.get? pc).getD []

/-- A new block, with its number; the index lists it last at its address. -/
def insert (g : Graph) (b : Block) : Graph × BlockId :=
  let (g', id) := g.alloc b
  ({ g' with index := g'.index.insert b.pc (g'.listedAt b.pc ++ [id]) }, id)

/-- The indexed block with an instruction's address and opcode. -/
def find? (g : Graph) (inst : Instruction) : Option BlockId :=
  (g.listedAt inst.pc).find? fun id => (g.block id).opcode = inst.opcode

/-- The blocks of a list, numbered by their places in it. -/
def number (g : Graph) (ids : List BlockId) : Graph :=
  ids.zipIdx.foldl (fun g e => g.modify e.1 fun b => { b with ordinal := some e.2 }) g

/-- A new block of one instruction; when its address has several, all of them are numbered. -/
def insertSibling (g : Graph) (inst : Instruction) : Graph × BlockId :=
  let (g', id) := g.insert (.ofInstruction inst)
  let siblings := g'.listedAt inst.pc
  (if 1 < siblings.length then g'.number siblings else g', id)

/-- The block of an instruction, created if there is none. -/
def place (g : Graph) (inst : Instruction) : Graph × BlockId :=
  match g.find? inst with
  | some id => (g, id)
  | none => g.insertSibling inst

/-! ## The index -/

def isIndexed (g : Graph) (id : BlockId) : Bool := (g.listedAt (g.block id).pc).contains id

/-- The graph whose index does not list a block; an address without blocks leaves the index. -/
def unindex (g : Graph) (id : BlockId) : Graph :=
  let pc := (g.block id).pc
  match g.index.get? pc with
  | none => g
  | some ids =>
    let kept := ids.filter (· ≠ id)
    { g with index := if kept.isEmpty then g.index.erase pc else g.index.insert pc kept }

/-- The graph whose index does not list a block, and whether the list of its address became
shorter. -/
def takeOut (g : Graph) (id : BlockId) : Graph × Bool :=
  let left := g.unindex id
  let pc := (g.block id).pc
  (left, (left.listedAt pc).length != (g.listedAt pc).length)

/-- The blocks that the index lists, by address. -/
def indexed (g : Graph) : List BlockId := g.index.values.flatten

@[simp] theorem blocks_unindex (g : Graph) (id : BlockId) : (g.unindex id).blocks = g.blocks := by
  unfold unindex
  simp only
  split <;> rfl

end Graph

end TraceFlow
