/-
TraceFlow.Proofs.Graph.Built — the graphs that operations make.

`Built` is the empty graph after any sequence of operations, those of a
recorder and those of the stages behind it. Each constructor is one
operation, with what it needs: edges join blocks that exist, and new
blocks come without edges. The last is not a matter of form. A copy of a
block that has edges would claim edges that the blocks at their other ends
know nothing of, and the graph after it is not mirrored.

`Built.mirrored` is the induction over such sequences. Its cases are the
lemmas of the single operations, so an operation that is added needs one
lemma in the module it belongs to and one line here.
-/
import TraceFlow.Proofs.Graph.Mirror

namespace TraceFlow.Graph

variable {g : Graph}

/-- The graphs that operations make out of the empty one. New blocks come without edges; edges
join blocks that exist; whatever else a block holds may be changed, but for its instructions. -/
inductive Built : Graph → Prop
  | new (digits : Nat) : Built (Graph.new digits)
  | alloc {g : Graph} (h : Built g) (new : Block) (hout : new.out = ∅) (hinto : new.into = ∅) :
      Built (g.alloc new).1
  | insert {g : Graph} (h : Built g) (new : Block) (hout : new.out = ∅) (hinto : new.into = ∅) :
      Built (g.insert new).1
  | place {g : Graph} (h : Built g) (inst : Instruction) : Built (g.place inst).1
  | link {g : Graph} (h : Built g) (a b : BlockId) (ha : a < g.size) (hb : b < g.size)
      (kind : Option LinkKind) (count : Nat) : Built (g.link a b kind count)
  | unlinkOnce {g : Graph} (h : Built g) (a b : BlockId) : Built (g.unlinkOnce a b)
  | unlink {g : Graph} (h : Built g) (a b : BlockId) : Built (g.unlink a b)
  | unindex {g : Graph} (h : Built g) (id : BlockId) : Built (g.unindex id)
  | absorb {g : Graph} (h : Built g) (into other : BlockId) (hinto : into < g.size)
      (hother : other < g.size) : Built (g.absorb into other)
  | splitCallSites {g : Graph} (h : Built g) (start : BlockId) : Built (g.splitCallSites start).1
  | mergeStraightLines {g : Graph} (h : Built g) (p : Profile) :
      Built (g.mergeStraightLines p).graph
  | partition {g : Graph} (h : Built g) (entries : List BlockId) : Built (g.partition entries).1
  | retouch {g : Graph} (h : Built g) (id : BlockId) (f : Block → Block)
      (hinstructions : ∀ b, (f b).instructions = b.instructions) (hout : ∀ b, (f b).out = b.out)
      (hinto : ∀ b, (f b).into = b.into) : Built (g.modify id f)

/-- Both ends of every edge agree in every graph that operations make. -/
theorem Built.mirrored (h : Built g) : Mirrored g := by
  induction h with
  | new digits => exact .new digits
  | alloc _ new hout hinto ih => exact ih.alloc new hout hinto
  | insert _ new hout hinto ih => exact ih.insert new hout hinto
  | place _ inst ih => exact ih.place inst
  | link _ a b ha hb kind count ih => exact ih.link ha hb kind count
  | unlinkOnce _ a b ih => exact ih.unlinkOnce a b
  | unlink _ a b ih => exact ih.unlink a b
  | unindex _ id ih => exact ih.sameEdges (.unindex _ id)
  | absorb _ into other hinto _ ih => exact ih.absorb hinto other
  | splitCallSites _ start ih => exact ih.splitCallSites start
  | mergeStraightLines _ p ih => exact ih.mergeStraightLines p
  | partition _ entries ih => exact ih.partition entries
  | retouch _ id f _ hout hinto ih => exact ih.sameEdges (.modify hout hinto)

end TraceFlow.Graph
