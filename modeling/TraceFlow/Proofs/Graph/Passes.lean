/-
TraceFlow.Proofs.Graph.Passes — the passes over a graph as sequences of
small steps.

Every pass is a loop, or a loop of loops, over a list that it reads off the
graph before it begins to change it. Later modules prove of a property that
each step keeps it; the loops are unfolded here, once.

* `splitCallSites_induct`: what every diverted call keeps, the pass keeps.
  The step is told where the call was found: in a graph that may be older
  than the one that is changed, with no more blocks than it.
* `mergeStraightLines_induct`: what every join of a candidate keeps, the
  pass keeps. There are three loops, over one block as long as it has a
  candidate, over the blocks of the index, and over the passes, so
  `mergeFrom_induct`, `mergePass_induct` and `mergePasses_induct` follow the
  recursion of their functions.
* `partition_induct`: what every cut of an entry keeps, the division keeps,
  by induction on the entries of each of its two lists.

`MergeCandidate` spells out what makes a candidate, as named facts; it is an
equivalence (`mergeCandidate?_eq_some_iff`), so that the absence of
candidates can be concluded as well.

The properties range over graphs alone. Where a proof has to follow
something beside the graph, as with chains, it puts an existential into the
property.
-/
import TraceFlow.Graph.CallSites
import TraceFlow.Graph.Merging
import TraceFlow.Graph.Partition
import TraceFlow.Proofs.Graph.Edges

namespace TraceFlow.Graph

variable {P : Graph → Prop}

/-! ## Diverting calls -/

/-- The edges listed into a block are those that its sources hold. -/
theorem mem_linksInto_iff {g : Graph} {id : BlockId} {l : Link} :
    l ∈ g.linksInto id ↔ l.target = id ∧ l.source ∈ (g.block id).into.keys ∧
      g.edge? l.source id = some ⟨l.kind, l.count⟩ := by
  unfold linksInto
  simp only [List.mem_filterMap, Option.map_eq_some_iff]
  constructor
  · rintro ⟨source, hmem, e, he, rfl⟩
    exact ⟨rfl, hmem, he⟩
  · rintro ⟨rfl, hmem, he⟩
    exact ⟨l.source, hmem, _, he, rfl⟩

/-- The calls of a block are the edges of that kind among them. -/
theorem mem_callsOf_iff {g : Graph} {entry : BlockId} {l : Link} :
    l ∈ g.callsOf entry ↔ l.kind = .callTaken ∧ l.target = entry ∧
      l.source ∈ (g.block entry).into.keys ∧
      g.edge? l.source entry = some ⟨l.kind, l.count⟩ := by
  simp only [callsOf, List.mem_filter, mem_linksInto_iff, decide_eq_true_eq, and_comm]

/-- Each call that is diverted makes one block, which the index does not list. -/
@[simp] theorem size_divertCall (entry : BlockId) (g : Graph) (call : Link) :
    (divertCall entry g call).size = g.size + 1 := by
  simp [divertCall]

@[simp] theorem index_divertCall (entry : BlockId) (g : Graph) (call : Link) :
    (divertCall entry g call).index = g.index := by
  simp [divertCall]

@[simp] theorem digits_divertCall (entry : BlockId) (g : Graph) (call : Link) :
    (divertCall entry g call).digits = g.digits := by
  simp [divertCall]

/-- What every diverted call keeps, `splitCallSites` keeps. A call that is diverted was listed when
the calls of its target were, in a graph with no more blocks than now. -/
theorem splitCallSites_induct {g : Graph} (start : BlockId) (hg : P g)
    (step : ∀ g₁ g₂ entry call, entry ∈ g.functionEntries → call ∈ g₁.callsOf entry →
      g₁.size ≤ g₂.size → P g₁ → P g₂ → P (divertCall entry g₂ call)) :
    P (g.splitCallSites start).1 := by
  refine List.foldlRecOn _ divertCalls hg fun g₁ h₁ entry hentry => ?_
  have grown : P (g₁.divertCalls entry) ∧ g₁.size ≤ (g₁.divertCalls entry).size := by
    refine List.foldlRecOn (motive := fun g₂ => P g₂ ∧ g₁.size ≤ g₂.size) _ _
      ⟨h₁, Nat.le_refl _⟩ fun g₂ h₂ call hcall => ⟨?_, ?_⟩
    · exact step g₁ g₂ entry call hentry hcall h₂.2 h₁ h₂.1
    · rw [size_divertCall]
      exact Nat.le_succ_of_le h₂.2
  exact grown.1

/-! ## Joining blocks -/

/-- What makes `next` the block that `id` may absorb. -/
structure MergeCandidate (g : Graph) (p : Profile) (id next : BlockId) : Prop where
  unequal : next ≠ id
  mergeable : (g.block id).isMergeable = true
  unmerged : (g.block id).mergedInto = none
  successors : (g.block id).successors = [next]
  plain : p.classify (g.block id).lastOpcode = none
  nextMergeable : (g.block next).isMergeable = true
  nextUnmerged : (g.block next).mergedInto = none
  nextCode : (g.block next).kind = .code
  nextInDegree : (g.block next).inDegree = 1

/-- What the search for a candidate finds, and nothing else, is one. -/
theorem mergeCandidate?_eq_some_iff {g : Graph} {p : Profile} {id next : BlockId} :
    g.mergeCandidate? p id = some next ↔ g.MergeCandidate p id next := by
  have hsucc : (g.block id).outDegree = (g.block id).successors.length := by
    simp [Block.outDegree, Block.successors, SortedMap.keys, SortedMap.length_entries]
  unfold mergeCandidate? acceptsBelow acceptsAbove
  simp only [hsucc, Bool.and_eq_true, Option.isNone_iff_eq_none, beq_iff_eq]
  constructor
  · intro h
    split at h
    · rename_i hbelow
      obtain ⟨hhead, hnext⟩ := Option.filter_eq_some_iff.1 h
      simp only [Bool.and_eq_true, bne_iff_ne, ne_eq, beq_iff_eq,
        Option.isNone_iff_eq_none] at hnext
      obtain ⟨only, honly⟩ := List.length_eq_one_iff.1 hbelow.1.2
      rw [honly, List.head?_cons, Option.some.injEq] at hhead
      subst hhead
      exact ⟨hnext.1, hbelow.1.1.1, hbelow.1.1.2, honly, hbelow.2, hnext.2.1.1.1, hnext.2.1.1.2,
        hnext.2.1.2, hnext.2.2⟩
    · cases h
  · intro h
    rw [if_pos ⟨⟨⟨h.mergeable, h.unmerged⟩, by rw [h.successors]; rfl⟩, h.plain⟩, h.successors]
    simp [h.unequal, h.nextMergeable, h.nextUnmerged, h.nextCode, h.nextInDegree]

/-- The joins of one block, by the recursion of the loop. -/
theorem mergeFrom_induct {p : Profile} (id : BlockId) (m : Merged) (hg : P m.graph)
    (step : ∀ g id next, g.MergeCandidate p id next → P g → P (g.absorb id next)) :
    P (mergeFrom p id m).graph := by
  fun_induction mergeFrom p id m with
  | case1 => exact hg
  | case2 m next h ih => exact ih (step _ _ _ (mergeCandidate?_eq_some_iff.1 h) hg)

/-- The joins of one pass. -/
theorem mergePass_induct {p : Profile} (m : Merged) (hg : P m.graph)
    (step : ∀ g id next, g.MergeCandidate p id next → P g → P (g.absorb id next)) :
    P (mergePass p m).graph := by
  refine List.foldlRecOn (motive := fun m : Merged => P m.graph) _ _ hg
    fun m hm id _ => ?_
  split
  · exact mergeFrom_induct id m hm step
  · exact hm

/-- The joins of all passes. -/
theorem mergePasses_induct {p : Profile} (m : Merged) (hg : P m.graph)
    (step : ∀ g id next, g.MergeCandidate p id next → P g → P (g.absorb id next)) :
    P (mergePasses p m).graph := by
  fun_induction mergePasses p m with
  | case1 m m' _ => exact mergePass_induct m hg step
  | case2 m m' _ ih => exact ih (mergePass_induct m hg step)

/-- What every join of a candidate keeps, `mergeStraightLines` keeps. -/
theorem mergeStraightLines_induct {g : Graph} (p : Profile) (hg : P g)
    (step : ∀ g id next, g.MergeCandidate p id next → P g → P (g.absorb id next)) :
    P (g.mergeStraightLines p).graph :=
  mergePasses_induct ⟨g, 0⟩ hg step

/-! ## Dividing into functions -/

/-- The cuts of the first half of the division. -/
theorem placeFree_induct (step : ∀ g entry, P g → P (g.cut entry (g.name entry))) :
    ∀ (entries : List BlockId) {g : Graph}, P g → P (g.placeFree entries).1
  | [], _, hg => hg
  | entry :: rest, g, hg => by
    unfold placeFree
    split
    · exact placeFree_induct step rest (step g entry hg)
    · exact placeFree_induct step rest hg

/-- The cuts of the second half. -/
theorem placeEntered_induct (step : ∀ g entry, P g → P (g.cut entry (g.name entry))) :
    ∀ (entries : List BlockId) {g : Graph}, P g → P (g.placeEntered entries).1
  | [], _, hg => hg
  | entry :: rest, g, hg => by
    unfold placeEntered
    simp only
    split
    · exact placeEntered_induct step rest (step g entry hg)
    · exact placeEntered_induct step rest hg

/-- What every cut of an entry keeps, `partition` keeps. -/
theorem partition_induct {g : Graph} (entries : List BlockId) (hg : P g)
    (step : ∀ g entry, P g → P (g.cut entry (g.name entry))) : P (g.partition entries).1 :=
  placeEntered_induct step _ (placeFree_induct step entries hg)

end TraceFlow.Graph
