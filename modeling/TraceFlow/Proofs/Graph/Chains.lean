/-
TraceFlow.Proofs.Graph.Chains — the blocks that joins put together.

A block of the joined graph is made of blocks of the graph before, and the
claim says of which: of a straight line of them. A chain is such a line, a
list in which every block is the only successor of the one before it, and
that one its only predecessor (`Follows`).

`Chained g g' chain head` is the invariant, with two functions beside the
graphs, since neither can be read off the joined graph alone: the block `b`
of `g'` is made of the blocks `chain b` of `g`, and a block `x` of `g` went
into the block `head x`. Its parts are what the claim asks for: chains are
disjoint, cover the graph and are straight; a surviving block heads its own
chain and holds its instructions one after the other; `mergedInto` leads
from each block to its head; edges leave a chain at its last block only and
enter it at its first.

`Chained.absorb` is the step. A join appends the chain of the candidate to
that of the block that absorbs it (`joinedChain`), whichever pieces were put
together before; so the one thing to show of the seam is that the first
block of the second chain follows the last one of the first in `g`
(`Chained.follows`). That comes from the candidate's edges in `g'`, carried
back by the parts `out` and `into`. The remaining parts are a lemma each,
by the three cases of `joinedChain_cases`: the joined chain, the empty one,
and those that stay.

`Chained.refl` starts it at a graph in which no block was absorbed, where
every block is a chain by itself.
-/
import Mathlib.Data.List.Chain
import Mathlib.Logic.Relation
import TraceFlow.Proofs.Graph.Absorb

namespace TraceFlow.Graph

variable {g g' : Graph} {p : Profile} {a b x y id next last : BlockId}
  {chain : BlockId → List BlockId} {head : BlockId → BlockId}

/-! ## Chains -/

/-- Every edge out of `a` leads to `b`, and every edge into `b` comes from `a`. -/
def Follows (g : Graph) (a b : BlockId) : Prop :=
  g.successors a = [b] ∧ (g.block b).into.keys = [a]

def AbsorbedBy (g : Graph) (a b : BlockId) : Prop := (g.block a).mergedInto = some b

/-- A path leads from the first block of a chain to every other. -/
theorem reaches_of_mem_chain {rest : List BlockId} (h : (b :: rest).IsChain g.Follows)
    (hx : x ∈ b :: rest) : g.Reaches b x := by
  induction rest generalizing b with
  | nil =>
    obtain rfl := List.mem_singleton.1 hx
    exact .here x
  | cons c rest ih =>
    obtain ⟨hfirst, hrest⟩ := List.isChain_cons_cons.1 h
    rcases List.mem_cons.1 hx with rfl | hx
    · exact .here x
    · refine .step ?_ (ih hrest hx)
      rw [hfirst.1]
      exact List.mem_singleton_self c

/-! ## Joining two chains -/

/-- The chains after a join: the one of `next` goes behind the one of `id`. -/
def joinedChain (chain : BlockId → List BlockId) (id next : BlockId) : BlockId → List BlockId :=
  fun b => if b = id then chain id ++ chain next else if b = next then [] else chain b

/-- The heads after a join: what went into `next` goes into `id`. -/
def joinedHead (head : BlockId → BlockId) (id next : BlockId) : BlockId → BlockId :=
  fun x => if head x = next then id else head x

/-- The block that absorbs has both chains. -/
theorem joinedChain_into : joinedChain chain id next id = chain id ++ chain next := if_pos rfl

theorem joinedChain_absorbed (hne : next ≠ id) : joinedChain chain id next next = [] := by
  simp [joinedChain, hne]

/-- All other chains stay. -/
theorem joinedChain_of_ne (hbi : b ≠ id) (hbn : b ≠ next) :
    joinedChain chain id next b = chain b := by
  simp [joinedChain, hbi, hbn]

/-- What holds of the three kinds of chains, holds of all. -/
theorem joinedChain_cases {P : List BlockId → Prop} (both : P (chain id ++ chain next))
    (none : P []) (old : ∀ b, P (chain b)) : P (joinedChain chain id next b) := by
  unfold joinedChain
  split
  · exact both
  · split
    · exact none
    · exact old b

/-- What was in a chain is in the chain of its new head. -/
theorem mem_joinedChain {n : Nat} (hne : id ≠ next)
    (hmem : ∀ {x b}, x ∈ chain b ↔ x < n ∧ head x = b) {x b : BlockId} :
    x ∈ joinedChain chain id next b ↔ x < n ∧ joinedHead head id next x = b := by
  unfold joinedChain joinedHead
  by_cases hbi : b = id
  · rw [if_pos hbi, List.mem_append, hmem, hmem]
    grind
  · rw [if_neg hbi]
    by_cases hbn : b = next
    · rw [if_pos hbn]
      grind
    · rw [if_neg hbn, hmem]
      grind

/-- A block that is not absorbed after a join was not absorbed before, and is not the candidate. -/
theorem MergeCandidate.unmerged_of_absorb (hc : g.MergeCandidate p id next) (hm : Mirrored g)
    (hb : ((g.absorb id next).block b).mergedInto = none) :
    b ≠ next ∧ (g.block b).mergedInto = none := by
  rw [mergedInto_absorb hc.unequal.symm (hc.next_lt_size hm)] at hb
  split at hb
  · cases hb
  · exact ⟨‹_›, hb⟩

/-! ## Graphs with blocks joined -/

/-- How the blocks of `g` make up those of `g'`. -/
structure Chained (g g' : Graph) (chain : BlockId → List BlockId) (head : BlockId → BlockId) :
    Prop where
  size : g'.size = g.size
  mem : ∀ {x b}, x ∈ chain b ↔ x < g.size ∧ head x = b
  head_lt : ∀ {x}, x < g.size → head x < g.size
  nodup : ∀ b, (chain b).Nodup
  straight : ∀ b, (chain b).IsChain g.Follows
  headed : ∀ {b}, b < g.size → (g'.block b).mergedInto = none → b ∈ (chain b).head?
  absorbed : ∀ {b}, (g'.block b).mergedInto ≠ none → chain b = []
  leads : ∀ {x}, x < g.size → Relation.ReflTransGen g'.AbsorbedBy x (head x)
  instructions : ∀ {b}, b < g.size → (g'.block b).mergedInto = none →
    (g'.block b).instructions.toList = (chain b).flatMap fun x => (g.block x).instructions.toList
  out : ∀ {b last}, last ∈ (chain b).getLast? → ∀ y, g'.edge? b y = g.edge? last y
  into : ∀ {x b}, (g.edge? x b).isSome → (g'.block b).mergedInto = none →
    x ∈ (chain (head x)).getLast?
  reaches : ∀ {a b}, g.Reaches a b → g'.Reaches (head a) (head b)

namespace Chained

/-- Before any join every block is a chain of its own. -/
theorem refl (hunmerged : ∀ id, (g.block id).mergedInto = none) :
    Chained g g (fun b => if b < g.size then [b] else []) fun x => x := by
  have hin : ∀ {b}, b < g.size → (if b < g.size then [b] else []) = [b] := fun hb => if_pos hb
  refine ⟨rfl, fun {x b} => ?_, id, fun b => ?_, fun b => ?_, fun hb _ => by simp [hin hb],
    fun hmerged => absurd (hunmerged _) hmerged, fun _ => .refl, fun hb _ => by simp [hin hb],
    fun {b last} hlast y => ?_, fun he _ => ?_, fun hab => hab⟩
  · show x ∈ (if b < g.size then [b] else []) ↔ x < g.size ∧ x = b
    by_cases hb : b < g.size
    · rw [hin hb, List.mem_singleton]
      exact ⟨fun h => ⟨h ▸ hb, h⟩, fun h => h.2⟩
    · rw [if_neg hb]
      refine ⟨fun h => absurd h List.not_mem_nil, ?_⟩
      rintro ⟨hx, rfl⟩
      exact absurd hx hb
  · show (if b < g.size then [b] else []).Nodup
    split <;> simp
  · show (if b < g.size then [b] else []).IsChain g.Follows
    split <;> simp
  · by_cases hb : b < g.size
    · simp only [hin hb, List.getLast?_singleton, Option.mem_some_iff] at hlast
      rw [hlast]
    · simp [if_neg hb] at hlast
  · obtain ⟨e, he⟩ := Option.isSome_iff_exists.1 he
    simp [hin (lt_size_of_edge? he)]

variable (h : Chained g g' chain head)

include h

/-- A block that was not absorbed heads its own chain. -/
theorem head_eq (hb : b < g.size) (hunmerged : (g'.block b).mergedInto = none) : head b = b :=
  (h.mem.1 (List.mem_of_mem_head? (h.headed hb hunmerged))).2

/-- The chain of a block that was not absorbed ends somewhere. -/
theorem exists_last (hb : b < g.size) (hunmerged : (g'.block b).mergedInto = none) :
    ∃ last, last ∈ (chain b).getLast? := by
  have hmem := List.mem_of_mem_head? (h.headed hb hunmerged)
  exact ⟨_, List.getLast?_eq_some_getLast (List.ne_nil_of_mem hmem)⟩

/-! ## One join -/

section

variable (hm : Mirrored g') (hc : g'.MergeCandidate p id next)

include hm hc

/-- Both blocks of a join are blocks of the graph before. -/
theorem lt_size : id < g.size ∧ next < g.size := by
  rw [← h.size]
  exact ⟨hc.lt_size, hc.next_lt_size hm⟩

/-- Where the chain of a block ends that has a candidate, the candidate follows. -/
theorem follows (hg : Mirrored g) (hlast : last ∈ (chain id).getLast?) : g.Follows last next := by
  have hout := h.out hlast
  have hedge : (g.edge? last next).isSome := by
    rw [← hout, hc.isSome_edge?_from]
  -- the edges into the candidate come from ends of chains
  have hsource : ∀ {x}, (g.edge? x next).isSome → x = last := by
    intro x hx
    have hend := h.into hx hc.nextUnmerged
    rw [← h.out hend next, hc.isSome_edge?_into hm] at hx
    rw [hx] at hend
    exact Option.mem_unique hend hlast
  constructor
  · refine List.perm_singleton.1 ((List.perm_ext_iff_of_nodup (SortedMap.nodup_keys _)
      (by simp)).2 fun y => ?_)
    show y ∈ g.successors last ↔ _
    rw [mem_successors_iff, ← hout, hc.isSome_edge?_from, List.mem_singleton]
  · refine List.perm_singleton.1 ((List.perm_ext_iff_of_nodup (SortedMap.nodup_keys _)
      (by simp)).2 fun x => ?_)
    have harrivals := hg.arrivals x next
    unfold arrivals? at harrivals
    rw [SortedMap.mem_keys_iff, harrivals, Option.isSome_map, List.mem_singleton]
    exact ⟨hsource, fun heq => heq ▸ hedge⟩

/-- The absorbers on the way stay, as the candidate was not absorbed before. -/
theorem leads_absorb (hx : x < g.size) :
    Relation.ReflTransGen (g'.absorb id next).AbsorbedBy x (joinedHead head id next x) := by
  have hmerged := mergedInto_absorb hc.unequal.symm (hc.next_lt_size hm)
  have hpath : Relation.ReflTransGen (g'.absorb id next).AbsorbedBy x (head x) := by
    refine Relation.ReflTransGen.mono (fun y z hyz => ?_) _ _ (h.leads hx)
    unfold AbsorbedBy at hyz ⊢
    have hy : y ≠ next := by
      rintro rfl
      rw [hc.nextUnmerged] at hyz
      cases hyz
    rw [hmerged, if_neg hy, hyz]
  unfold joinedHead
  split
  · rename_i hxn
    refine hpath.tail ?_
    unfold AbsorbedBy
    rw [hmerged, if_pos hxn]
  · exact hpath

/-- The instructions of both go one after the other, as the chains do. -/
theorem instructions_absorb (hb : b < g.size)
    (hunmerged : ((g'.absorb id next).block b).mergedInto = none) :
    ((g'.absorb id next).block b).instructions.toList =
      (joinedChain chain id next b).flatMap fun x => (g.block x).instructions.toList := by
  obtain ⟨hbn, hbefore⟩ := hc.unmerged_of_absorb hm hunmerged
  rw [instructions_absorb_eq hc.unequal.symm (h.size.symm ▸ hb)]
  by_cases hbi : b = id
  · subst hbi
    rw [if_pos rfl, joinedChain_into, Array.toList_append, List.flatMap_append,
      h.instructions hb hbefore, h.instructions (h.lt_size hm hc).2 hc.nextUnmerged]
  · rw [if_neg hbi, joinedChain_of_ne hbi hbn, h.instructions hb hbefore]

/-- The joined chain ends where the second one did. -/
theorem getLast?_joinedChain : (joinedChain chain id next id).getLast? = (chain next).getLast? := by
  obtain ⟨last, hlast⟩ := h.exists_last (h.lt_size hm hc).2 hc.nextUnmerged
  rw [joinedChain_into, List.getLast?_append, hlast]
  rfl

/-- So edges leave it there. -/
theorem out_absorb (hlast : last ∈ (joinedChain chain id next b).getLast?) (y : BlockId) :
    (g'.absorb id next).edge? b y = g.edge? last y := by
  rw [hc.edge?_absorb hm]
  by_cases hbn : b = next
  · subst hbn
    rw [joinedChain_absorbed hc.unequal] at hlast
    cases hlast
  · rw [if_neg hbn]
    by_cases hbi : b = id
    · subst hbi
      rw [h.getLast?_joinedChain hm hc] at hlast
      rw [if_pos rfl, h.out hlast]
    · rw [joinedChain_of_ne hbi hbn] at hlast
      rw [if_neg hbi, h.out hlast]

/-- They enter where a chain begins, which no join changes for the blocks that stay. -/
theorem into_absorb (he : (g.edge? x b).isSome)
    (hunmerged : ((g'.absorb id next).block b).mergedInto = none) :
    x ∈ (joinedChain chain id next (joinedHead head id next x)).getLast? := by
  obtain ⟨hbn, hunmerged⟩ := hc.unmerged_of_absorb hm hunmerged
  have hend := h.into he hunmerged
  -- the end of the first chain leads nowhere but to the candidate
  have hxi : head x ≠ id := by
    intro hxi
    rw [hxi] at hend
    rw [← h.out hend, hc.isSome_edge?_from] at he
    exact hbn he
  unfold joinedHead
  split
  · rename_i hxn
    rw [h.getLast?_joinedChain hm hc, ← hxn]
    exact hend
  · rename_i hxn
    rwa [joinedChain_of_ne hxi hxn]

/-- A join of a candidate joins two chains. -/
theorem absorb (hg : Mirrored g) :
    Chained g (g'.absorb id next) (joinedChain chain id next) (joinedHead head id next) := by
  have hne : id ≠ next := hc.unequal.symm
  have hmerged := mergedInto_absorb hne (hc.next_lt_size hm)
  refine ⟨size_absorb.trans h.size, mem_joinedChain hne h.mem, fun hx => ?_, fun b => ?_,
    fun b => ?_,
    fun {b} hb hunmerged => ?_, fun {b} hsome => ?_, h.leads_absorb hm hc,
    h.instructions_absorb hm hc, h.out_absorb hm hc, h.into_absorb hm hc,
    fun hab => hc.reaches hm (h.reaches hab)⟩
  · unfold joinedHead
    split
    · exact (h.lt_size hm hc).1
    · exact h.head_lt hx
  · refine joinedChain_cases (P := List.Nodup) ?_ List.nodup_nil h.nodup
    refine List.nodup_append.2 ⟨h.nodup id, h.nodup next, fun x hx y hy heq => ?_⟩
    subst heq
    exact hne ((h.mem.1 hx).2.symm.trans (h.mem.1 hy).2)
  · refine joinedChain_cases (P := List.IsChain g.Follows) ?_ .nil h.straight
    refine (h.straight id).append (h.straight next) fun x hx y hy => ?_
    rw [Option.mem_unique hy (h.headed (h.lt_size hm hc).2 hc.nextUnmerged)]
    exact h.follows hm hc hg hx
  · obtain ⟨hbn, hunmerged⟩ := hc.unmerged_of_absorb hm hunmerged
    have hhead := h.headed hb hunmerged
    by_cases hbi : b = id
    · subst hbi
      rw [joinedChain_into, List.head?_append, hhead]
      rfl
    · rwa [joinedChain_of_ne hbi hbn]
  · rw [hmerged] at hsome
    by_cases hbn : b = next
    · rw [hbn, joinedChain_absorbed hc.unequal]
    · rw [if_neg hbn] at hsome
      have hbi : b ≠ id := fun heq => hsome (heq ▸ hc.unmerged)
      rw [joinedChain_of_ne hbi hbn, h.absorbed hsome]

end

end Chained

end TraceFlow.Graph
