/-
TraceFlow.Graph.Partition — dividing a graph into functions.

* Whatever an entry leads to is its function: `cut` marks those blocks
  with the function's name and takes them out of the index.
* An entry that nothing leads to is a function of its own. Of the others,
  in order, one that lies in no function so far becomes one too (it is
  part of a cycle); the rest are inner functions.
* `unclaimed` lists what is left in the index.
-/
import TraceFlow.Graph.Closure
import TraceFlow.Diagnostic
import TraceFlow.Note

namespace TraceFlow.Graph

/-- Marks everything that `entry` leads to as part of the function `name`, and takes it out of the
index. -/
def cut (g : Graph) (entry : BlockId) (name : String) : Graph :=
  (g.closure entry).foldl (fun g id =>
    (g.modify id fun b => { b with within := b.within.add name }).unindex id) g

inductive Verdict where
  /-- A function that nothing else leads to. -/
  | standalone
  /-- A function on a cycle that no function reached before. -/
  | promoted
  /-- A function inside others. -/
  | inner (within : List String)
deriving DecidableEq, Repr

/-- An entry, its name, and what became of it. -/
structure Placement where
  name : String
  entry : BlockId
  /-- What became of it. -/
  verdict : Verdict
deriving DecidableEq, Repr

namespace Placement

/-- Whether the entry is a function of its own. -/
def isTopLevel (p : Placement) : Bool :=
  match p.verdict with
  | .standalone | .promoted => true
  | .inner _ => false

def notes (p : Placement) : List Note :=
  match p.verdict with
  | .standalone => []
  | .promoted => [⟨.debug, "Promoting self-contained " ++ p.name ++ " to a function"⟩]
  | .inner within =>
    [⟨.info, "Function " ++ p.name ++ " is within " ++ ", ".intercalate within⟩]

end Placement

/-- Cuts out the entries of a list that nothing leads to; gives the graph, what became of them, and
the other entries. -/
def placeFree : Graph → List BlockId → Graph × List Placement × List BlockId
  | g, [] => (g, [], [])
  | g, entry :: rest =>
    if (g.block entry).inDegree = 0 then
      let name := g.name entry
      let (g', placed, left) := placeFree (g.cut entry name) rest
      (g', ⟨name, entry, .standalone⟩ :: placed, left)
    else
      let (g', placed, left) := placeFree g rest
      (g', placed, entry :: left)

/-- Places the entries of a list that something leads to; gives the graph and what became of
them. -/
def placeEntered : Graph → List BlockId → Graph × List Placement
  | g, [] => (g, [])
  | g, entry :: rest =>
    let name := g.name entry
    let within := (g.block entry).within
    if within.isEmpty then
      let (g', placed) := placeEntered (g.cut entry name) rest
      (g', ⟨name, entry, .promoted⟩ :: placed)
    else
      let (g', placed) := placeEntered g rest
      (g', ⟨name, entry, .inner within.names⟩ :: placed)

/-- Divides the graph into the functions that begin at the given entries; gives the graph and what
became of each entry. -/
def partition (g : Graph) (entries : List BlockId) : Graph × List Placement :=
  let (freed, free, left) := g.placeFree entries
  let (done, entered) := freed.placeEntered left
  (done, free ++ entered)

/-- The functions of their own among placed entries, by name. -/
def topLevel (placed : List Placement) : SortedMap String BlockId :=
  .ofList ((placed.filter (·.isTopLevel)).map fun p => (p.name, p.entry))

def innerOnes (placed : List Placement) : SortedMap String BlockId :=
  .ofList ((placed.filter (!·.isTopLevel)).map fun p => (p.name, p.entry))

/-- The names of the blocks that are left in the index. -/
def unclaimed (g : Graph) : List String := g.indexed.map g.name

def unclaimedNotes (g : Graph) : List Note :=
  g.unclaimed.map fun name => ⟨.warn, "Block " ++ name ++ " is not part of any function"⟩

end TraceFlow.Graph
