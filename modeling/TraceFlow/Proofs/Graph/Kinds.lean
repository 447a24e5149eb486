/-
TraceFlow.Proofs.Graph.Kinds — the kinds of edges.

`edgeKind?` is the view of an edge that shows its kind alone. Most claims
about kinds do not care how often an edge was passed, and through this view
an operation that only counts is seen to change nothing. There is one lemma
for the operation that draws edges (`edgeKind?_link`); an edge that is
passed again without a kind keeps the one it has.

The second half counts the edges of one kind, those of returns that missed.
`missCount` is the number that a report gives, the length of a filtered
list. Lists are no good for comparing two graphs, so the module goes over to
the finite set of the ends of such edges: an edge is listed once
(`nodup_links`), so the set has as many members (`card_missEnds`), and then
a graph whose missed edges are among those of another has no more of them
(`missCount_le`). Three inequalities follow.

* `missCount_link_le`: linking adds one at most, and only when told to.
* `Raw.missCount_split_le`: leading calls to markers adds none, as the kind
  of a new edge is that of a call.
* `Mirrored.missCount_mergeStraightLines_le`: a join moves edges from one
  block to another, which maps the ends of the new ones into those of the
  old (`MergeCandidate.missCount_absorb_le`).
-/
import TraceFlow.Proofs.Graph.Markers

namespace TraceFlow.Graph

variable {g g' : Graph} {a b x y id next start : BlockId} {kind : Option LinkKind} {k : LinkKind}
  {n : Nat} {p : Profile} {entries : List BlockId}

def edgeKind? (g : Graph) (a b : BlockId) : Option LinkKind := (g.edge? a b).map (·.kind)

/-- An edge of a kind is an edge. -/
theorem edgeKind?_eq_some_iff :
    g.edgeKind? a b = some k ↔ ∃ e, g.edge? a b = some e ∧ e.kind = k :=
  Option.map_eq_some_iff

/-- Edges that are equal are of one kind. -/
theorem edgeKind?_congr (h : g'.edge? a b = g.edge? a b) : g'.edgeKind? a b = g.edgeKind? a b := by
  rw [edgeKind?, edgeKind?, h]

/-- Linking gives the edge the kind that is given, or leaves the one it had. -/
theorem edgeKind?_link (ha : a < g.size) (hn : 0 < n) :
    (g.link a b kind n).edgeKind? x y =
      if x = a ∧ y = b then some (kind.getD ((g.edgeKind? a b).getD .normal))
      else g.edgeKind? x y := by
  unfold edgeKind?
  rw [edge?_link ha hn]
  split <;> rfl

/-- Both ends of an edge are blocks of the graph. -/
theorem lt_size_of_edgeKind? (h : g.edgeKind? a b = some k) : a < g.size := by
  obtain ⟨e, he, -⟩ := edgeKind?_eq_some_iff.1 h
  exact lt_size_of_edge? he

theorem Mirrored.lt_size_of_edgeKind? (hm : Mirrored g) (h : g.edgeKind? a b = some k) :
    b < g.size := by
  obtain ⟨e, he, -⟩ := edgeKind?_eq_some_iff.1 h
  exact hm.lt_size he

/-! ## Edges of returns that missed -/

def missCount (g : Graph) : Nat := (g.links.filter (·.kind = .returnMiss)).length

/-- The ends of the edges that are returns without a call. -/
def missEnds (g : Graph) : Finset (BlockId × BlockId) :=
  ((g.links.filter (·.kind = .returnMiss)).map fun l => (l.source, l.target)).toFinset

/-- The edges of a graph are those that look-up finds. -/
theorem mem_links_iff {l : Link} :
    l ∈ g.links ↔ g.edge? l.source l.target = some ⟨l.kind, l.count⟩ := by
  unfold links
  simp only [List.mem_flatMap, mem_linksFrom_iff, ids, List.mem_range]
  constructor
  · rintro ⟨a, -, rfl, he⟩
    exact he
  · intro he
    exact ⟨l.source, lt_size_of_edge? he, rfl, he⟩

/-- The set holds the ends of the edges that missed. -/
theorem mem_missEnds_iff : (a, b) ∈ g.missEnds ↔ g.edgeKind? a b = some .returnMiss := by
  simp only [missEnds, List.mem_toFinset, List.mem_map, List.mem_filter, mem_links_iff,
    decide_eq_true_eq, edgeKind?_eq_some_iff]
  constructor
  · rintro ⟨l, ⟨he, hkind⟩, heq⟩
    obtain ⟨rfl, rfl⟩ := Prod.mk.inj heq
    exact ⟨_, he, hkind⟩
  · rintro ⟨e, he, hkind⟩
    exact ⟨⟨a, b, e.kind, e.count⟩, ⟨he, hkind⟩, rfl⟩

/-- No two edges have the same ends. -/
theorem nodup_links (g : Graph) : (g.links.map fun l => (l.source, l.target)).Nodup := by
  unfold links
  rw [List.map_flatMap, List.nodup_flatMap]
  refine ⟨fun a _ => ?_, List.nodup_range.imp fun {a b} hab => ?_⟩
  · have htargets : ((g.linksFrom a).map (·.target)).Nodup := by
      rw [map_target_linksFrom]
      exact SortedMap.nodup_keys _
    refine List.Nodup.of_map Prod.snd ?_
    rwa [List.map_map]
  · intro ends ha hb
    obtain ⟨l, hl, rfl⟩ := List.mem_map.1 ha
    obtain ⟨l', hl', heq⟩ := List.mem_map.1 hb
    have hsource : l'.source = l.source := congrArg Prod.fst heq
    exact hab ((mem_linksFrom_iff.1 hl).1.symm.trans
      (hsource.symm.trans (mem_linksFrom_iff.1 hl').1))

/-- It has as many members as there are such edges. -/
theorem card_missEnds (g : Graph) : g.missEnds.card = g.missCount := by
  have hnodup := g.nodup_links.sublist
    ((List.filter_sublist (p := fun l => l.kind = .returnMiss)).map fun l : Link =>
      (l.source, l.target))
  rw [missEnds, List.toFinset_card_of_nodup hnodup, List.length_map, missCount]

/-- There are no more such edges in a graph than in one that has all of them. -/
theorem missCount_le
    (h : ∀ a b, g'.edgeKind? a b = some .returnMiss → g.edgeKind? a b = some .returnMiss) :
    g'.missCount ≤ g.missCount := by
  rw [← card_missEnds, ← card_missEnds]
  refine Finset.card_le_card fun ends hends => ?_
  exact mem_missEnds_iff.2 (h _ _ (mem_missEnds_iff.1 hends))

/-- Linking adds one such edge at most, and only when it is told to. -/
theorem missCount_link_le (hx : x < g.size) (hn : 0 < n) :
    (g.link x y kind n).missCount ≤ g.missCount + if kind = some .returnMiss then 1 else 0 := by
  have hkind : ∀ a b, (g.link x y kind n).edgeKind? a b = _ := fun a b => edgeKind?_link hx hn
  by_cases hmiss : kind = some .returnMiss
  · rw [if_pos hmiss, ← card_missEnds, ← card_missEnds]
    refine Nat.le_trans (Finset.card_le_card fun ends hends => ?_)
      (Finset.card_insert_le (x, y) g.missEnds)
    have hends := mem_missEnds_iff.1 hends
    rw [hkind] at hends
    split at hends
    · rename_i hnew
      exact Finset.mem_insert.2 (.inl (Prod.ext hnew.1 hnew.2))
    · exact Finset.mem_insert.2 (.inr (mem_missEnds_iff.2 hends))
  · rw [if_neg hmiss, Nat.add_zero]
    refine missCount_le fun a b hab => ?_
    rw [hkind] at hab
    split at hab
    · rename_i hxy
      cases kind with
      | some k => exact absurd hab hmiss
      | none =>
        -- an edge that is linked without a kind has the kind it had
        rw [hxy.1, hxy.2]
        cases hold : g.edgeKind? x y with
        | none => simp [hold] at hab
        | some old => simpa [hold] using hab
    · exact hab

/-! ## The passes -/

/-- Leading a call to its marker draws no such edge. -/
theorem Raw.missCount_split_le (h : Raw start g) :
    (g.splitCallSites start).1.missCount ≤ g.missCount := by
  have hentries : ∀ entry ∈ g.functionEntries, entry < g.size := fun entry hentry =>
    (h.mem_functionEntries_iff.1 hentry).1
  have hrun : (Mirrored (g.splitCallSites start).1 ∧ g.size ≤ (g.splitCallSites start).1.size) ∧
      (g.splitCallSites start).1.missCount ≤ g.missCount := by
    refine splitCallSites_live (P := fun g' => (Mirrored g' ∧ g.size ≤ g'.size) ∧
      g'.missCount ≤ g.missCount) start ⟨⟨h.mirrored, Nat.le_refl _⟩, Nat.le_refl _⟩ And.left
      hentries ?_
    rintro g' entry call - - he ⟨⟨hm, hle⟩, hcount⟩
    refine ⟨⟨hm.divertCall (lt_size_of_edge? he), ?_⟩,
      Nat.le_trans (missCount_le fun a b hab => ?_) hcount⟩
    · rw [size_divertCall]
      exact Nat.le_succ_of_le hle
    · rw [edgeKind?, edge?_divertCall hm he] at hab
      split at hab
      · cases hab
      · split at hab
        · cases hab
        · exact hab
  exact hrun.2

/-- A join moves such edges from one source to another. -/
theorem MergeCandidate.missCount_absorb_le (hc : g.MergeCandidate p id next) (hm : Mirrored g) :
    (g.absorb id next).missCount ≤ g.missCount := by
  have hkind : ∀ a b, (g.absorb id next).edgeKind? a b =
      if a = next then none else if a = id then g.edgeKind? next b else g.edgeKind? a b := by
    intro a b
    unfold edgeKind?
    rw [hc.edge?_absorb hm]
    split
    · rfl
    · split <;> rfl
  have hsource : ∀ {a b}, (g.absorb id next).edgeKind? a b = some .returnMiss → a ≠ next := by
    rintro a b hab rfl
    rw [hkind, if_pos rfl] at hab
    cases hab
  rw [← card_missEnds, ← card_missEnds]
  refine Finset.card_le_card_of_injOn
    (fun ends => (if ends.1 = id then next else ends.1, ends.2)) ?_ ?_
  · rintro ⟨a, b⟩ hab
    have hab := mem_missEnds_iff.1 hab
    have hne := hsource hab
    rw [hkind, if_neg hne] at hab
    refine mem_missEnds_iff.2 ?_
    simp only
    split
    · rename_i ha
      rwa [if_pos ha] at hab
    · rename_i ha
      rwa [if_neg ha] at hab
  · rintro ⟨a, b⟩ hab ⟨a', b'⟩ hab' heq
    have hne := hsource (mem_missEnds_iff.1 hab)
    have hne' := hsource (mem_missEnds_iff.1 hab')
    obtain ⟨hsources, rfl⟩ := Prod.mk.inj heq
    refine Prod.ext ?_ rfl
    simp only at hsources ⊢
    split at hsources <;> split at hsources
    · rename_i ha ha'
      rw [ha, ha']
    · exact absurd hsources.symm hne'
    · exact absurd hsources hne
    · exact hsources

/-- Joining straight lines adds no edge of a return that missed. -/
theorem Mirrored.missCount_mergeStraightLines_le (h : Mirrored g) (p : Profile) :
    (g.mergeStraightLines p).graph.missCount ≤ g.missCount := by
  have hrun : Mirrored (g.mergeStraightLines p).graph ∧
      (g.mergeStraightLines p).graph.missCount ≤ g.missCount := by
    refine mergeStraightLines_induct (P := fun g' => Mirrored g' ∧ g'.missCount ≤ g.missCount) p
      ⟨h, Nat.le_refl _⟩ ?_
    rintro g' id next hc ⟨hm, hcount⟩
    exact ⟨hm.absorb hc.lt_size next, Nat.le_trans (hc.missCount_absorb_le hm) hcount⟩
  exact hrun.2

theorem SameEdges.missCount (h : SameEdges g g') : g'.missCount = g.missCount :=
  Nat.le_antisymm (missCount_le fun a b hab => (edgeKind?_congr (h.edge? a b)).symm.trans hab)
    (missCount_le fun a b hab => (edgeKind?_congr (h.edge? a b)).trans hab)

end TraceFlow.Graph
