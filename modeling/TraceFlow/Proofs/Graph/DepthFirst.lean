/-
TraceFlow.Proofs.Graph.DepthFirst — the closure of a block is the order of
a recursive depth-first search.

The closure is computed by a loop over a stack that holds blocks yet to be
visited, some of them twice. The order in which it visits is the one of the
recursive search that takes the successors of a block in ascending order
and skips what was visited; that they agree is a fact about traversals in
general (`Traversal.visit_eq_search`), which is used here for the
successors of a block. `pairwise_successors` says that those ascend.

* `DepthFirst g entry order` gathers what a reader takes from that order:
  it is the one of the search, it begins with the entry, names no block
  twice, holds exactly what the entry reaches, and an edge out of it leads
  into it.
* `LinksAlong g order links` says the same of edges: `links` holds every
  edge out of a block of `order` once, and both of its ends are in `order`.

`closure_depth_first` says both of the closure, in every graph whose edges
are held alike at both ends, and then of the blocks and edges of a function
in the map of a trace, which are computed by the same traversal.
-/
import Mathlib.Data.List.Nodup
import TraceFlow.FunctionMap
import TraceFlow.Proofs.Graph.Absorb
import TraceFlow.Proofs.Graph.Built
import TraceFlow.Proofs.Graph.Reach
import TraceFlow.Proofs.Traversal.Search

namespace TraceFlow.Graph

variable {g : Graph} {a b entry : BlockId} {order : List BlockId} {links : List Link} {l : Link}

/-- The successors of a block are in ascending order. -/
theorem pairwise_successors (g : Graph) (a : BlockId) : (g.successors a).Pairwise (· < ·) :=
  List.Pairwise.map _ (fun _ _ hlt => Nat.compare_eq_lt.1 hlt) (g.block a).out.ordered

/-- The order in which a recursive depth-first search from `entry` visits blocks. -/
structure DepthFirst (g : Graph) (entry : BlockId) (order : List BlockId) : Prop where
  searched : order = Traversal.search g.successors g.finite_successors [] [entry]
  ascending : ∀ a, (g.successors a).Pairwise (· < ·)
  first : order.head? = some entry
  once : order.Nodup
  reached : ∀ b, b ∈ order ↔ g.Reaches entry b
  closed : ∀ a ∈ order, ∀ b ∈ g.successors a, b ∈ order
  known : ∀ b ∈ order, b < g.size

/-- The edges out of the blocks of `order`, each once. -/
structure LinksAlong (g : Graph) (order : List BlockId) (links : List Link) : Prop where
  once : (links.map fun l => (l.source, l.target)).Nodup
  mem_iff : ∀ l, l ∈ links ↔ l.source ∈ order ∧ g.edge? l.source l.target = some ⟨l.kind, l.count⟩
  ends : ∀ l ∈ links, l.source ∈ order ∧ l.target ∈ order

/-- An edge out of the closure leads into it. -/
theorem mem_successors_closure (ha : a ∈ g.closure entry) (hb : b ∈ g.successors a) :
    b ∈ g.closure entry :=
  mem_closure_iff.2 ((mem_closure_iff.1 ha).trans (.step hb (.here b)))

/-- The closure in all of these respects. -/
theorem Mirrored.depthFirst (h : Mirrored g) (hentry : entry < g.size) :
    DepthFirst g entry (g.closure entry) where
  searched := Traversal.visit_eq_search entry
  ascending := g.pairwise_successors
  first := Traversal.head?_visit entry
  once := Traversal.nodup_visit entry
  reached _ := mem_closure_iff
  closed _ ha _ hb := mem_successors_closure ha hb
  known b hb := by
    refine (reaches_iff_path.1 (mem_closure_iff.1 hb)).closed (P := (· < g.size)) ?_ hentry
    intro a _ b hb
    obtain ⟨e, he⟩ := Option.isSome_iff_exists.1 (mem_successors_iff.1 hb)
    exact h.lt_size he

/-- The edges listed are those out of the blocks of the closure. -/
theorem mem_closureLinks_iff : l ∈ g.closureLinks entry ↔
    l.source ∈ g.closure entry ∧ g.edge? l.source l.target = some ⟨l.kind, l.count⟩ := by
  unfold closureLinks
  simp only [List.mem_flatMap, mem_linksFrom_iff]
  constructor
  · rintro ⟨_, ha, rfl, he⟩
    exact ⟨ha, he⟩
  · rintro ⟨ha, he⟩
    exact ⟨l.source, ha, rfl, he⟩

/-- Each of them is listed once, as each block is visited once. -/
theorem linksAlong_closure (g : Graph) (entry : BlockId) :
    LinksAlong g (g.closure entry) (g.closureLinks entry) := by
  refine ⟨?_, fun _ => mem_closureLinks_iff, fun l hl => ?_⟩
  · unfold closureLinks
    rw [List.map_flatMap]
    refine List.nodup_flatMap.2 ⟨fun a _ => ?_, ?_⟩
    · -- edges out of one block have different targets
      have htargets : ((g.linksFrom a).map (·.target)).Nodup := by
        rw [map_target_linksFrom]
        exact SortedMap.nodup_keys _
      refine List.Nodup.of_map Prod.snd ?_
      rwa [List.map_map]
    · refine List.Pairwise.imp (fun {a b} hne => ?_) (Traversal.nodup_visit entry)
      intro p hp hp'
      obtain ⟨l, hl, rfl⟩ := List.mem_map.1 hp
      obtain ⟨l', hl', heq⟩ := List.mem_map.1 hp'
      rw [(mem_linksFrom_iff.1 hl).1, (mem_linksFrom_iff.1 hl').1] at heq
      exact hne (congrArg Prod.fst heq).symm
  · obtain ⟨hsource, he⟩ := mem_closureLinks_iff.1 hl
    exact ⟨hsource, mem_successors_closure hsource (mem_successors_iff.2 (by rw [he]; rfl))⟩

/-- **The closure of a block is the order of the recursive depth-first search from it**, whatever
cycles and loops the graph has: the search takes successors in ascending order and skips what was
visited. The order begins with the block, and holds every block that it reaches once and no other.
The edges of a function along it are all edges out of these blocks, each once, and lead to these
blocks. -/
theorem closure_depth_first (h : Mirrored g) (hentry : entry < g.size) :
    DepthFirst g entry (g.closure entry) ∧
      ∀ m : FunctionMap, m.graph = g →
        m.walk entry = g.closure entry ∧ LinksAlong g (m.walk entry) (m.links entry) := by
  refine ⟨h.depthFirst hentry, ?_⟩
  rintro m rfl
  exact ⟨rfl, linksAlong_closure m.graph entry⟩

/-- Four blocks on one cycle, the third of which also leads to itself: the last one waits while the
two before it are visited, and is pending twice by then. -/
theorem closure_depth_first_loops :
    let code (pc : Address) : Block := .ofInstruction ⟨pc, [0], [], none⟩
    let apart := (((((Graph.new 4).insert (code 0)).1.insert (code 1)).1.insert (code 2)).1.insert
      (code 3)).1
    let g := ((((((apart.link 0 3 none 1).link 0 1 none 1).link 1 2 none 1).link 2 0 none 1).link
      2 2 none 4).link 2 3 none 1).link 3 1 (some .taken) 2
    Mirrored g ∧ 0 < g.size ∧ DepthFirst g 0 (g.closure 0) ∧ g.closure 0 = [0, 1, 2, 3] := by
  intro code apart g
  have hapart : Built apart := ((((Built.new 4).insert _ rfl rfl).insert _ rfl rfl).insert _ rfl
    rfl).insert _ rfl rfl
  have hm : Mirrored g := (((((((hapart.link 0 3 (by decide) (by decide) none 1).link 0 1
    (by decide) (by decide) none 1).link 1 2 (by decide) (by decide) none 1).link 2 0 (by decide)
    (by decide) none 1).link 2 2 (by decide) (by decide) none 4).link 2 3 (by decide) (by decide)
    none 1).link 3 1 (by decide) (by decide) (some .taken) 2).mirrored
  have hentry : 0 < g.size := by decide
  have hclosure := (closure_depth_first hm hentry).1
  refine ⟨hm, hentry, hclosure, hclosure.searched.trans ?_⟩
  have hsuccessors : [0, 1, 2, 3].map g.successors = [[1, 3], [2], [0, 2, 3], [1]] := by
    decide +kernel
  obtain ⟨h₀, h₁, h₂, h₃⟩ : _ ∧ _ ∧ _ ∧ _ := by simpa using hsuccessors
  simp [Traversal.search_cons_new, Traversal.search_cons_visited, h₀, h₁, h₂, h₃]

end TraceFlow.Graph
