/-
TraceFlow.Proofs.Sheet.Outline — what the sheets of a function tell.

An `Outline` says of a function what can be said without its graph: the names
of its blocks in order, and its edges with their ends in writing. A sheet
tells the outline if it can be read from it by one who only knows the form;
`Table`, `Plain`, `Document` and `Dot` each have such a reader in a module of
their own.

Two of the forms list the edges block by block, so an outline can also be
given by its blocks with the edges out of each (`Outline.ofBlocks`), and for
a function it is the same (`FunctionMap.outline_eq_ofBlocks`), as its edges
are listed in the order of its blocks.

Names, tags and counts are words (`IsWord`), so no punctuation of a form
stands inside them. That is used through one lemma for a single field
(`Takes.word`) and one for the kind and count that two forms write alike
(`Takes.kindAndCount`).
-/
import TraceFlow.Archive.Document
import TraceFlow.FunctionMap
import TraceFlow.Proofs.BlockName
import TraceFlow.Proofs.Text.Scanner

namespace TraceFlow

namespace LinkKind

def ofName? (name : String) : Option LinkKind := all.find? (·.name = name)

@[simp] theorem ofName?_name (kind : LinkKind) : ofName? kind.name = some kind := by
  cases kind <;> decide

end LinkKind

/-! ## Outlines -/

structure WrittenLink where
  source : String
  target : String
  kind : LinkKind
  count : Nat
deriving DecidableEq, Repr

def Link.written (f : BlockId → String) (l : Link) : WrittenLink :=
  ⟨f l.source, f l.target, l.kind, l.count⟩

structure Outline where
  blocks : List String
  links : List WrittenLink
deriving DecidableEq, Repr

namespace Outline

/-- The outline of blocks that each list the edges out of them. -/
def ofBlocks (blocks : List (String × List WrittenLink)) : Outline where
  blocks := blocks.map (·.1)
  links := blocks.flatMap (·.2)

end Outline

namespace Graph

/-- A block as an outline lists it: its name and the edges out of it. -/
def blockOutline (g : Graph) (id : BlockId) : String × List WrittenLink :=
  (g.name id, (g.linksFrom id).map (·.written g.name))

end Graph

def FunctionMap.outline (m : FunctionMap) (entry : BlockId) : Outline where
  blocks := (m.walk entry).map m.graph.name
  links := (m.links entry).map (·.written m.graph.name)

/-- The edges of a function stand in the order of its blocks. -/
theorem FunctionMap.outline_eq_ofBlocks (m : FunctionMap) (entry : BlockId) :
    m.outline entry = .ofBlocks ((m.walk entry).map m.graph.blockOutline) := by
  unfold outline Outline.ofBlocks links Graph.closureLinks walk
  rw [List.map_map, List.flatMap_map, List.map_flatMap]
  rfl

theorem IsWord.name (g : Graph) (id : BlockId) : IsWord (g.name id) :=
  .render g.digits (g.block id).name

/-! ## Kinds and counts -/

namespace Text.Scanner

/-- Reads the kind and the count of an edge, and what ends them. -/
def kindAndCount (stop : Char) : Scanner (LinkKind × Nat) := do
  let name ← field ' '
  let kind ← StateT.lift (LinkKind.ofName? name)
  literal "x"
  let digits ← field stop
  let count ← StateT.lift digits.toNat?
  return (kind, count)

/-- A word is read up to a character that is in no word. -/
theorem Takes.word {text : String} (h : IsWord text) (stop : Char)
    (hstop : BlockName.isWordChar stop = false) :
    Takes (Scanner.field stop) (text.toList ++ [stop]) text := .field (h.not_mem hstop)

/-- Kind and count of an edge are read back, up to what ends them. -/
theorem Takes.kindAndCount {stop : Char} (hstop : BlockName.isWordChar stop = false)
    (kind : LinkKind) (count : Nat) :
    Takes (Scanner.kindAndCount stop)
      (kind.name.toList ++ [' '] ++ ("x".toList ++ ((Nat.repr count).toList ++ [stop])))
      (kind, count) := by
  have hname : Takes (Scanner.field ' ') (kind.name.toList ++ [' ']) kind.name :=
    .field (by cases kind <;> decide)
  have hcount : Takes (Scanner.field stop) ((Nat.repr count).toList ++ [stop]) (Nat.repr count) :=
    .word (.repr count) stop hstop
  refine hname.bind ((Takes.lift kind.ofName?_name).bind ((Takes.literal "x").bind ?_))
  rw [← List.append_nil ((Nat.repr count).toList ++ [stop])]
  exact hcount.bind ((Takes.lift (Nat.toNat?_repr count)).bind (.pure _))

end Text.Scanner

end TraceFlow
