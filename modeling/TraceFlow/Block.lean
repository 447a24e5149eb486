/-
TraceFlow.Block — blocks of instructions and the edges between them.

* A block is a run of instructions executed one after the other. It knows
  its outgoing edges by kind and count, and its incoming ones by count;
  `Graph` keeps the two views in step.
* Blocks are told apart by natural numbers, which never run out: fewer than
  2^32 blocks are assumed of a program that keeps the numbers in 32 bits.
* A synthetic block stands for something other than code: the start or
  end of a trace, or a call that left the function.
* `BlockName` is the identity under which blocks are listed and compared;
  `render` writes it.
-/
import TraceFlow.Instruction
import TraceFlow.SortedMap

namespace TraceFlow

/-- The number of a block in its graph, in order of creation. -/
abbrev BlockId := Nat

def blockTag (id : BlockId) : String := "B" ++ Nat.repr id

inductive BlockKind where
  | code
  | subroutine
  | handler
deriving DecidableEq, Repr

namespace BlockKind

/-- The word that begins the names of blocks of this kind. -/
def word : BlockKind → String
  | .code => "loc"
  | .subroutine => "sub"
  | .handler => "int"

def isFunctionEntry : BlockKind → Bool
  | .code => false
  | .subroutine | .handler => true

end BlockKind

/-! ## Edges -/

inductive LinkKind where
  /-- From one instruction to the next. -/
  | normal
  | taken
  | notTaken
  | callTaken
  /-- A return that no pending call explains. -/
  | returnMiss
deriving DecidableEq, Repr

namespace LinkKind

def name : LinkKind → String
  | .normal => "normal"
  | .taken => "taken"
  | .notTaken => "not-taken"
  | .callTaken => "call-taken"
  | .returnMiss => "ret-miss"

def color : LinkKind → String
  | .normal => "black"
  | .taken => "green"
  | .notTaken => "red"
  | .callTaken => "blue"
  | .returnMiss => "orange"

end LinkKind

/-- The greatest count that an edge can hold; further traversals leave it there. -/
def countLimit : Nat := wordSize 32 - 1

/-- A count, held at the limit. -/
def saturate (n : Nat) : Nat := min n countLimit

structure Edge where
  kind : LinkKind
  count : Nat
deriving DecidableEq, Repr

/-- An edge after `count` more traversals: a kind that is given replaces the one before, and a new
edge without one is normal. -/
def Edge.raised (before : Option Edge) (kind : Option LinkKind) (count : Nat) : Edge where
  kind := kind.getD ((before.map (·.kind)).getD .normal)
  count := saturate ((before.map (·.count)).getD 0 + count)

structure Link where
  source : BlockId
  target : BlockId
  kind : LinkKind
  count : Nat
deriving DecidableEq, Repr

/-! ## Blocks -/

/-- What a synthetic block stands for. -/
structure Synthetic where
  label : String
  mergeable : Bool
deriving DecidableEq, Repr

/-- A run of instructions executed one after the other. -/
structure Block where
  instructions : Array Instruction
  kind : BlockKind := .code
  /-- Set for a block that is no code. -/
  synthetic : Option Synthetic := none
  /-- The block's place among those at its address, when there are several. -/
  ordinal : Option Nat := none
  /-- Whether an edge out of the block was found to be its taken one. -/
  takenFound : Bool := false
  /-- The functions from which the block can be reached. -/
  within : NameSet := ∅
  /-- The block that absorbed this one. -/
  mergedInto : Option BlockId := none
  out : SortedMap BlockId Edge := ∅
  /-- Counts of incoming edges. -/
  into : SortedMap BlockId Nat := ∅
deriving DecidableEq

namespace Block

def ofInstruction (inst : Instruction) : Block := { instructions := #[inst] }

def marker (pc : Address) (label : String) (mergeable : Bool) : Block where
  instructions := #[{ pc := pc, opcode := [] }]
  synthetic := some ⟨label, mergeable⟩

/-- The block that an unknown number stands for: nothing leads to it or from it. -/
def missing : Block := { instructions := #[] }

def pc (b : Block) : Address := (b.instructions[0]?.map (·.pc)).getD 0

def opcode (b : Block) : List UInt8 := (b.instructions[0]?.map (·.opcode)).getD []

def lastOpcode (b : Block) : List UInt8 := (b.instructions.back?.map (·.opcode)).getD []

def isSynthetic (b : Block) : Bool := b.synthetic.isSome

def isMergeable (b : Block) : Bool := (b.synthetic.map (·.mergeable)).getD true

def outDegree (b : Block) : Nat := b.out.size

def inDegree (b : Block) : Nat := b.into.size

/-- How often control left the block. -/
def outCount (b : Block) : Nat := (b.out.values.map (·.count)).foldr (· + ·) 0

/-- How often control entered the block. -/
def inCount (b : Block) : Nat := b.into.values.foldr (· + ·) 0

def successors (b : Block) : List BlockId := b.out.keys

end Block

/-! ## Names -/

/-- What a block is called by: its kind, its address, its place among the blocks there, and
whether it is synthetic. -/
structure BlockName where
  kind : BlockKind
  pc : Address
  ordinal : Option Nat
  synthetic : Bool
deriving DecidableEq, Repr

/-- The name in writing: kind, address in at least `digits` digits, ordinal, and an S for a
synthetic block. -/
def BlockName.render (digits : Nat) (n : BlockName) : String :=
  n.kind.word ++ "_" ++ Hex.padded digits n.pc ++
    (match n.ordinal with
      | some k => "_" ++ Nat.repr k
      | none => "") ++
    (if n.synthetic then "S" else "")

def Block.name (b : Block) : BlockName := ⟨b.kind, b.pc, b.ordinal, b.isSynthetic⟩

end TraceFlow
