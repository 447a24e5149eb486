/-
TraceFlow.Proofs.Graph.Mirror — every edge is held alike at both of its
ends.

`Mirrored` says that the target of an edge counts what the source counts,
that no edge of count zero is kept, and that no count is beyond the limit.
With it one view of an edge may be put for the other; without it
`unlinkOnce`, which looks at the source, could leave a count behind.

The module has one lemma for each operation, all of one form. The two views
of the graph after it are given by the lemmas of the module of edges, so a
proof rewrites both and compares conditionals.

* `Mirrored.link`, `Mirrored.unlink` and `Mirrored.unlinkOnce` change one
  edge, under the same condition on both sides.
* `Mirrored.alloc` needs a new block without edges. This is where a copy of
  another block would break it.
* `Mirrored.sameEdges` serves for all operations that draw no edge.
* `Mirrored.absorb` is a loop over the edges of a block. `takeOver` is that
  loop by itself, which `SameEdges.absorb` puts for the operation; each of
  its turns is a link and an unlink, and `Mirrored.rehomeAll` is the
  induction over the list of edges, whose targets stay in range.

Passes are sequences of operations, so theirs are one line each with the
induction that goes with the pass: `Mirrored.splitCallSites`,
`Mirrored.mergeStraightLines`, `Mirrored.partition`.
-/
import TraceFlow.Proofs.Graph.Passes

namespace TraceFlow.Graph

variable {g g' : Graph} {a b : BlockId}

/-- The target of every edge counts what its source counts, and no count is zero or beyond the
limit. -/
structure Mirrored (g : Graph) : Prop where
  arrivals : ∀ a b, g.arrivals? a b = (g.edge? a b).map (·.count)
  pos : ∀ {a b e}, g.edge? a b = some e → 0 < e.count
  le : ∀ {a b e}, g.edge? a b = some e → e.count ≤ countLimit

/-- The graph after `into` took over the edges of `other`. -/
def takeOver (g : Graph) (into other : BlockId) : Graph :=
  ((g.unlink into other).linksFrom other).foldl (rehome into other) (g.unlink into other)

/-- What a join does besides moving edges, it does to blocks. -/
theorem SameEdges.absorb (g : Graph) (into other : BlockId) :
    SameEdges (g.takeOver into other) (g.absorb into other) := by
  refine (SameEdges.modify ?_ ?_).trans ((SameEdges.modify ?_ ?_).trans (.unindex ..)) <;>
    exact fun _ => rfl

/-- An edge that is passed has a positive count. -/
theorem raised_pos (before : Option Edge) (kind : Option LinkKind) {n : Nat} (hn : 0 < n) :
    0 < (Edge.raised before kind n).count :=
  saturate_pos (by omega)

theorem raised_le (before : Option Edge) (kind : Option LinkKind) (n : Nat) :
    (Edge.raised before kind n).count ≤ countLimit :=
  saturate_le _

namespace Mirrored

/-! ## Consequences -/

/-- The target counts what the source counts. -/
theorem arrivals?_eq_some (h : Mirrored g) {e : Edge} (he : g.edge? a b = some e) :
    g.arrivals? a b = some e.count := by
  rw [h.arrivals, he]
  rfl

/-- A target holds no edge that its source does not. -/
theorem edge?_of_arrivals? (h : Mirrored g) {n : Nat} (hn : g.arrivals? a b = some n) :
    ∃ e, g.edge? a b = some e ∧ e.count = n := by
  rw [h.arrivals] at hn
  exact Option.map_eq_some_iff.1 hn

/-- An edge leads to a block of the graph. -/
theorem lt_size (h : Mirrored g) {e : Edge} (he : g.edge? a b = some e) : b < g.size :=
  lt_size_of_arrivals? (h.arrivals?_eq_some he)

/-- No edge leads to a block that the graph does not have. -/
theorem edge?_eq_none (h : Mirrored g) (hb : g.size ≤ b) : g.edge? a b = none :=
  Option.eq_none_iff_forall_ne_some.2 fun _ he => Nat.not_lt.2 hb (h.lt_size he)

theorem arrivals?_eq_none (h : Mirrored g) (he : g.edge? a b = none) : g.arrivals? a b = none := by
  rw [h.arrivals, he]
  rfl

/-- No count is beyond the limit. -/
theorem traversals_le (h : Mirrored g) (a b : BlockId) : g.traversals a b ≤ countLimit := by
  unfold traversals
  cases he : g.edge? a b with
  | none => exact Nat.zero_le _
  | some e => exact h.le he

/-- An edge is there exactly when it was passed. -/
theorem traversals_pos_iff (h : Mirrored g) : 0 < g.traversals a b ↔ (g.edge? a b).isSome := by
  unfold traversals
  cases he : g.edge? a b with
  | none => exact ⟨fun hpos => absurd hpos (Nat.lt_irrefl 0), fun hsome => by cases hsome⟩
  | some e => exact ⟨fun _ => rfl, fun _ => h.pos he⟩

/-- Linking takes no traversal away. -/
theorem traversals_le_link (h : Mirrored g) {x y : BlockId} (ha : a < g.size)
    (kind : Option LinkKind) {n : Nat} (hn : 0 < n) :
    g.traversals x y ≤ (g.link a b kind n).traversals x y := by
  rw [traversals_link ha hn]
  split
  · rename_i hxy
    rw [hxy.1, hxy.2]
    calc g.traversals a b
      _ = saturate (g.traversals a b) := (saturate_of_le (h.traversals_le a b)).symm
      _ ≤ saturate (g.traversals a b + n) := saturate_mono (Nat.le_add_right _ _)
  · exact Nat.le_refl _

/-! ## Single operations -/

theorem new (digits : Nat) : Mirrored (Graph.new digits) := by
  have hnone : ∀ a b, (Graph.new digits).edge? a b = none := fun a b => by
    rw [edge?, block_of_size_le (Nat.zero_le a)]
    rfl
  refine ⟨fun a b => ?_, fun he => ?_, fun he => ?_⟩
  · rw [hnone, arrivals?, block_of_size_le (Nat.zero_le b)]
    rfl
  · rw [hnone] at he
    cases he
  · rw [hnone] at he
    cases he

/-- A graph with the same edges is mirrored as well. -/
theorem sameEdges (h : Mirrored g) (same : SameEdges g g') : Mirrored g' := by
  refine ⟨fun a b => ?_, fun he => ?_, fun he => ?_⟩
  · rw [same.arrivals?, same.edge?, h.arrivals]
  · rw [same.edge?] at he
    exact h.pos he
  · rw [same.edge?] at he
    exact h.le he

/-- A new block without edges claims nothing of other blocks. -/
theorem alloc (h : Mirrored g) (new : Block) (hout : new.out = ∅) (hinto : new.into = ∅) :
    Mirrored (g.alloc new).1 := by
  refine ⟨fun a b => ?_, fun he => ?_, fun he => ?_⟩
  · rw [arrivals?_alloc hinto, edge?_alloc hout, h.arrivals]
  · rw [edge?_alloc hout] at he
    exact h.pos he
  · rw [edge?_alloc hout] at he
    exact h.le he

theorem insert (h : Mirrored g) (new : Block) (hout : new.out = ∅) (hinto : new.into = ∅) :
    Mirrored (g.insert new).1 :=
  (h.alloc new hout hinto).sameEdges (.of_blocks (blocks_insert g new))

theorem place (h : Mirrored g) (inst : Instruction) : Mirrored (g.place inst).1 := by
  unfold Graph.place
  split
  · exact h
  · have hinsert := h.insert (.ofInstruction inst) rfl rfl
    unfold insertSibling
    simp only
    split
    · exact hinsert.sameEdges (.number ..)
    · exact hinsert

/-- Linking raises the count on both sides, to the limit on both. -/
theorem link (h : Mirrored g) (ha : a < g.size) (hb : b < g.size) (kind : Option LinkKind)
    (n : Nat) : Mirrored (g.link a b kind n) := by
  rcases Nat.eq_zero_or_pos n with rfl | hn
  · rwa [link_zero]
  · refine ⟨fun x y => ?_, fun {x y e} he => ?_, fun {x y e} he => ?_⟩
    · rw [arrivals?_link hb hn, edge?_link ha hn]
      split
      · rw [h.arrivals]
        rfl
      · exact h.arrivals x y
    · rw [edge?_link ha hn] at he
      split at he
      · cases he
        exact raised_pos _ _ hn
      · exact h.pos he
    · rw [edge?_link ha hn] at he
      split at he
      · cases he
        exact raised_le ..
      · exact h.le he

theorem unlink (h : Mirrored g) (a b : BlockId) : Mirrored (g.unlink a b) := by
  refine ⟨fun x y => ?_, fun {x y e} he => ?_, fun {x y e} he => ?_⟩
  · rw [arrivals?_unlink h.arrivals?_eq_none, edge?_unlink]
    split
    · rfl
    · exact h.arrivals x y
  · rw [edge?_unlink] at he
    split at he
    · cases he
    · exact h.pos he
  · rw [edge?_unlink] at he
    split at he
    · cases he
    · exact h.le he

/-- Taking one traversal back takes the edge away on both sides, or on neither. -/
theorem unlinkOnce (h : Mirrored g) (a b : BlockId) : Mirrored (g.unlinkOnce a b) := by
  cases hab : g.edge? a b with
  | none =>
    unfold Graph.unlinkOnce
    rwa [hab]
  | some old =>
    have hlow : ∀ {n m : Nat}, lowered n = some m → 0 < m ∧ m ≤ n := by
      intro n m hm
      unfold lowered at hm
      split at hm <;> cases hm
      omega
    have hedge : ∀ {x y e}, (g.unlinkOnce a b).edge? x y = some e →
        g.edge? x y = some e ∨ 0 < e.count ∧ e.count ≤ old.count := by
      intro x y e he
      rw [edge?_unlinkOnce] at he
      split at he
      · rw [hab, Option.bind_some] at he
        obtain ⟨m, hm, rfl⟩ := Option.map_eq_some_iff.1 he
        exact .inr (hlow hm)
      · exact .inl he
    refine ⟨fun x y => ?_, fun {x y e} he => ?_, fun {x y e} he => ?_⟩
    · rw [arrivals?_unlinkOnce hab, edge?_unlinkOnce]
      split
      · rw [h.arrivals?_eq_some hab, hab, Option.bind_some, Option.bind_some]
        cases lowered old.count <;> rfl
      · exact h.arrivals x y
    · rcases hedge he with he | he
      · exact h.pos he
      · exact he.1
    · rcases hedge he with he | he
      · exact h.le he
      · have := h.le hab
        omega

/-! ## Absorbing -/

/-- An edge that moves is taken away and drawn again. -/
theorem rehome (h : Mirrored g) {into other : BlockId} (hinto : into < g.size) {l : Link}
    (hl : l.target < g.size) : Mirrored (rehome into other g l) := by
  refine (h.unlink other l.target).link (by simpa using hinto) ?_ _ _
  rw [size_unlink]
  split
  · exact hinto
  · exact hl

/-- Moving edges keeps both ends in step as long as the edges lead to blocks of the graph. -/
theorem rehomeAll (h : Mirrored g) {into other : BlockId} (hinto : into < g.size)
    {ls : List Link} (hls : ∀ l ∈ ls, l.target < g.size) :
    Mirrored (ls.foldl (Graph.rehome into other) g) := by
  refine (List.foldlRecOn (motive := fun g' => Mirrored g' ∧ g'.size = g.size) _ _ ⟨h, rfl⟩
    fun g' hg' l hl => ⟨?_, ?_⟩).1
  · exact hg'.1.rehome (by rw [hg'.2]; exact hinto) (by rw [hg'.2]; exact hls l hl)
  · simp [Graph.rehome, hg'.2]

theorem target_lt_size (h : Mirrored g) {l : Link} (hl : l ∈ g.linksFrom a) :
    l.target < g.size := by
  obtain ⟨e, he, rfl⟩ := List.mem_map.1 hl
  exact h.lt_size (SortedMap.mem_entries_iff.1 he)

/-- A join moves the edges of one block, one after the other. -/
theorem absorb (h : Mirrored g) {into : BlockId} (hinto : into < g.size) (other : BlockId) :
    Mirrored (g.absorb into other) := by
  have hparted := h.unlink into other
  have hmoved : Mirrored (g.takeOver into other) :=
    hparted.rehomeAll (by simpa using hinto) fun l hl => hparted.target_lt_size hl
  exact hmoved.sameEdges (.absorb g into other)

/-! ## Passes -/

/-- A call that is led to its marker is one edge less and one more. -/
theorem divertCall (h : Mirrored g) {entry : BlockId} {call : Link}
    (hsource : call.source < g.size) : Mirrored (divertCall entry g call) := by
  refine ((h.unlink call.source entry).alloc (g.callMarker entry) rfl rfl).link ?_ ?_ _ _
  · simpa using Nat.lt_succ_of_lt hsource
  · simp

theorem splitCallSites (h : Mirrored g) (start : BlockId) :
    Mirrored (g.splitCallSites start).1 := by
  refine splitCallSites_induct start h fun g₁ g₂ entry call _ hcall hsize _ h₂ => ?_
  have hsource := lt_size_of_edge? (mem_callsOf_iff.1 hcall).2.2.2
  exact h₂.divertCall (Nat.lt_of_lt_of_le hsource hsize)

theorem mergeStraightLines (h : Mirrored g) (p : Profile) :
    Mirrored (g.mergeStraightLines p).graph := by
  refine mergeStraightLines_induct p h fun g id next hc h => h.absorb ?_ next
  have hmem : next ∈ (g.block id).successors := by
    rw [hc.successors]
    exact List.mem_singleton_self _
  obtain ⟨e, he⟩ := Option.isSome_iff_exists.1 (SortedMap.mem_keys_iff.1 hmem)
  exact lt_size_of_edge? he

end Mirrored

/-- Cutting a function out draws no edge. -/
theorem SameEdges.cut (g : Graph) (entry : BlockId) (name : String) :
    SameEdges g (g.cut entry name) := by
  refine List.foldlRecOn _ _ (.refl g) fun g' hg id _ => hg.trans ?_
  refine (SameEdges.modify ?_ ?_).trans (.unindex ..) <;> exact fun _ => rfl

theorem Mirrored.partition (h : Mirrored g) (entries : List BlockId) :
    Mirrored (g.partition entries).1 :=
  partition_induct entries h fun _ _ h => h.sameEdges (.cut ..)

end TraceFlow.Graph
