/-
TraceFlow.Proofs.Graph.Markers — what tells the successors of a block
apart.

The map of functions is walked by names: the successors of a block are kept
under their names, and one would hide another of the same name. In a raw
graph all names differ. Markers bear the name of the block that is called,
with an S behind it, so here something is to be shown: two calls of one
function from two blocks have markers of one name.

They are no two successors of one block. `Marked` says why, as the
invariant of leading calls to markers: a marker bears the name of the block
that is called, and its source has no edge to that block any more; so a
block has one marker for each block it calls. The second clause holds only
if every call is still there when it is led away.

* `splitCallSites_live` is that: an induction over the calls in which the
  step may use that the edge is there. The calls of one block have different
  sources (`Mirrored.nodup_callsOf`), so leading one of them away does not
  touch the next (`divertAll_live`).
* `Marked.divertCall` is the step and `Raw.marked` the run. `Discerning` is
  what comes of it: no two successors of a block have one name.
* Joins and the division keep names, and a join gives a block the successors
  of one other instead of its own, so `Discerning` is kept as it stands
  (`Claimable.discerning_absorb`, `Claimed.discerning`).

`FunctionMap.navigable` states it of the functions of a trace, together
with the ranges of entries and edges, as the comparison of maps uses it.
-/
import TraceFlow.Proofs.FunctionMap
import TraceFlow.Proofs.Graph.Traversals

namespace TraceFlow

namespace Graph

variable {g g' : Graph} {entries : List BlockId} {start a x y id next entry : BlockId} {call : Link}
  {p : Profile}

/-! ## Calls that are led to their markers -/

/-- A call that is led to a marker leaves its source for the marker, with what it carried. -/
theorem edge?_divertCall (hm : Mirrored g)
    (he : g.edge? call.source entry = some ⟨call.kind, call.count⟩) :
    (divertCall entry g call).edge? x y =
      if x = call.source ∧ y = g.size then some ⟨.callTaken, call.count⟩
      else if x = call.source ∧ y = entry then none else g.edge? x y := by
  have hlt : call.source < ((g.unlink call.source entry).alloc (g.callMarker entry)).1.size := by
    rw [size_alloc, size_unlink]
    exact Nat.lt_succ_of_lt (lt_size_of_edge? he)
  have hparted : ∀ x y, ((g.unlink call.source entry).alloc (g.callMarker entry)).1.edge? x y =
      if x = call.source ∧ y = entry then none else g.edge? x y := by
    intro x y
    rw [edge?_alloc rfl, edge?_unlink]
  have hnone : ∀ x, g.edge? x g.size = none := fun _ => hm.edge?_eq_none (Nat.le_refl _)
  have hcount : saturate call.count = call.count := saturate_of_le (hm.le he)
  unfold divertCall
  simp only
  rw [edge?_link hlt (hm.pos he), snd_alloc, size_unlink, hparted, hparted, hnone, ite_self]
  simp [Edge.raised, hcount]

/-- The calls of a block have different sources. -/
theorem Mirrored.nodup_callsOf (h : Mirrored g) (entry : BlockId) :
    ((g.callsOf entry).map (·.source)).Nodup := by
  have hall : ((g.linksInto entry).map (·.source)).Nodup := by
    rw [h.map_source_linksInto]
    exact SortedMap.nodup_keys _
  exact hall.sublist (List.filter_sublist.map _)

/-- What every call that is led to its marker while it is there keeps, leading calls there one
after the other keeps. -/
theorem divertAll_live {P : Graph → Prop} (hP : ∀ {g}, P g → Mirrored g)
    (step : ∀ g call, call.kind = .callTaken →
      g.edge? call.source entry = some ⟨call.kind, call.count⟩ → P g →
        P (divertCall entry g call)) :
    ∀ (calls : List Link) {g : Graph}, entry < g.size → (calls.map (·.source)).Nodup →
      (∀ call ∈ calls, call.kind = .callTaken ∧
        g.edge? call.source entry = some ⟨call.kind, call.count⟩) →
      P g → P (calls.foldl (divertCall entry) g)
  | [], _, _, _, _, hg => hg
  | call :: calls, g, hlt, hnodup, hcalls, hg => by
    obtain ⟨hfirst, hrest⟩ := List.nodup_cons.1 hnodup
    obtain ⟨hkind, he⟩ := hcalls call List.mem_cons_self
    rw [List.foldl_cons]
    refine divertAll_live hP step calls ?_ hrest (fun other hother => ?_) (step g call hkind he hg)
    · rw [size_divertCall]
      exact Nat.lt_succ_of_lt hlt
    · -- the other calls leave other blocks
      obtain ⟨hkind, hlive⟩ := hcalls other (List.mem_cons_of_mem _ hother)
      have hdiffers : other.source ≠ call.source := fun heq =>
        hfirst (List.mem_map.2 ⟨other, hother, heq⟩)
      refine ⟨hkind, ?_⟩
      rw [edge?_divertCall (hP hg) he, if_neg fun h => hdiffers h.1, if_neg fun h => hdiffers h.1,
        hlive]

/-- What every call that is led to its marker while it is there keeps, `splitCallSites` keeps. -/
theorem splitCallSites_live {P : Graph → Prop} (start : BlockId) (hg : P g)
    (hP : ∀ {g'}, P g' → Mirrored g' ∧ g.size ≤ g'.size)
    (hentries : ∀ entry ∈ g.functionEntries, entry < g.size)
    (step : ∀ g' entry call, entry ∈ g.functionEntries → call.kind = .callTaken →
      g'.edge? call.source entry = some ⟨call.kind, call.count⟩ → P g' →
      P (divertCall entry g' call)) : P (g.splitCallSites start).1 := by
  refine List.foldlRecOn _ divertCalls hg fun g' hg' entry hentry => ?_
  refine divertAll_live (fun h => (hP h).1) (fun g' call => step g' entry call hentry) _
    (Nat.lt_of_lt_of_le (hentries entry hentry) (hP hg').2) ((hP hg').1.nodup_callsOf entry)
    (fun call hcall => ?_) hg'
  obtain ⟨hkind, -, -, he⟩ := mem_callsOf_iff.1 hcall
  exact ⟨hkind, he⟩

/-! ## Names of successors -/

/-- No two successors of a block have the same name. -/
def Discerning (g : Graph) : Prop :=
  ∀ a x y, x ∈ g.successors a → y ∈ g.successors a → g.name x = g.name y → x = y

/-- A raw graph `g` with calls led to markers: what its markers are called, and that no two
successors of a block have one name. -/
structure Marked (g : Graph) (entries : List BlockId) (g' : Graph) : Prop where
  split : Split g entries g'
  marker : ∀ {a x}, g.size ≤ x → (g'.edge? a x).isSome → ∃ e, e < g.size ∧
    (g'.block x).name = { (g.block e).name with synthetic := true } ∧ g'.edge? a e = none
  distinct : ∀ {a x y}, (g'.edge? a x).isSome → (g'.edge? a y).isSome →
    (g'.block x).name = (g'.block y).name → x = y

namespace Marked

/-- Leading a call to its marker gives its source one more successor, of a name of its own. -/
theorem divertCall (h : Marked g entries g') (hcatalogued : Catalogued g) (hentry : entry ∈ entries)
    (hlt : entry < g.size) (he : g'.edge? call.source entry = some ⟨call.kind, call.count⟩) :
    Marked g entries (divertCall entry g' call) := by
  have hm := h.split.mirrored
  have hedge := fun x y => edge?_divertCall (x := x) (y := y) hm he
  have hbody := body_divertCall entry g' call
  have hsplit := h.split.divertCall hentry (lt_size_of_edge? he) (hm.pos he)
  have hold : ∀ {x}, x < g'.size →
      ((Graph.divertCall entry g' call).block x).name = (g'.block x).name := by
    intro x hx
    exact (congrArg Block.name ((hbody x).trans (if_neg (Nat.ne_of_lt hx))) :)
  have hnew : ((Graph.divertCall entry g' call).block g'.size).name =
      { (g.block entry).name with synthetic := true } := by
    have hmarker : ((Graph.divertCall entry g' call).block g'.size).name =
        { (g'.block entry).name with synthetic := true } :=
      congrArg Block.name ((hbody g'.size).trans (if_pos rfl))
    have hsame : (g'.block entry).name = (g.block entry).name :=
      (congrArg Block.name (h.split.body hlt) :)
    rw [hmarker, hsame]
  have hlive : ∀ {x}, (g'.edge? call.source x).isSome → x < g'.size := by
    intro x hx
    obtain ⟨e, hx⟩ := Option.isSome_iff_exists.1 hx
    exact hm.lt_size hx
  -- the new marker's name is that of no other successor
  have hfresh : ∀ {y}, (g'.edge? call.source y).isSome → y ≠ entry →
      (g'.block y).name ≠ { (g.block entry).name with synthetic := true } := by
    intro y hy hne hname
    rcases Nat.lt_or_ge y g.size with hraw | hmade
    · have hsame := congrArg Block.name (h.split.body hraw)
      have hkey : (g.block y).name = { (g.block entry).name with synthetic := true } :=
        hsame.symm.trans hname
      exact hne (hcatalogued.eq_of_ordinal hraw hlt (congrArg BlockName.pc hkey)
        (congrArg BlockName.ordinal hkey))
    · obtain ⟨e, helt, hmarker, hleft⟩ := h.marker hmade hy
      have hkey := hmarker.symm.trans hname
      obtain rfl : e = entry := hcatalogued.eq_of_ordinal helt hlt (congrArg BlockName.pc hkey)
        (congrArg BlockName.ordinal hkey)
      rw [he] at hleft
      cases hleft
  generalize Graph.divertCall entry g' call = led at *
  have hcases : ∀ {a x}, (led.edge? a x).isSome → (a = call.source ∧ x = g'.size) ∨
      (¬(a = call.source ∧ x = entry) ∧ x < g'.size ∧ (g'.edge? a x).isSome) := by
    intro a x hx
    rw [hedge] at hx
    split at hx
    · rename_i hmarker
      exact .inl hmarker
    · split at hx
      · cases hx
      · rename_i hkept
        obtain ⟨e, hsome⟩ := Option.isSome_iff_exists.1 hx
        exact .inr ⟨hkept, hm.lt_size hsome, hx⟩
  refine ⟨hsplit, fun {a x} hx hsome => ?_, fun {a x y} hx hy hname => ?_⟩
  · have hnot : ∀ {e}, e < g.size → e ≠ g'.size := fun he heq =>
      Nat.not_lt.2 h.split.size_le (heq ▸ he)
    have hgone : ∀ {e}, e < g.size → g'.edge? a e = none → led.edge? a e = none := by
      intro e he hnone
      rw [hedge, if_neg fun heq => hnot he heq.2, hnone, ite_self]
    rcases hcases hsome with ⟨rfl, rfl⟩ | ⟨-, hlt', hsome⟩
    · refine ⟨entry, hlt, hnew, ?_⟩
      rw [hedge, if_neg fun heq => hnot hlt heq.2, if_pos ⟨rfl, rfl⟩]
    · obtain ⟨e, helt, hmarker, hleft⟩ := h.marker hx hsome
      exact ⟨e, helt, (hold hlt').trans hmarker, hgone helt hleft⟩
  · rcases hcases hx with ⟨rfl, rfl⟩ | ⟨hxkept, hxlt, hx⟩ <;>
      rcases hcases hy with ⟨hya, rfl⟩ | ⟨hykept, hylt, hy⟩
    · rfl
    · rw [hnew, hold hylt] at hname
      exact absurd hname.symm (hfresh hy fun heq => hykept ⟨rfl, heq⟩)
    · subst hya
      rw [hnew, hold hxlt] at hname
      exact absurd hname (hfresh hx fun heq => hxkept ⟨rfl, heq⟩)
    · rw [hold hxlt, hold hylt] at hname
      exact h.distinct hx hy hname

/-- With its markers a raw graph tells the successors of a block apart. -/
theorem discerning (h : Marked g entries g') : Discerning g' := by
  intro a x y hx hy hname
  exact h.distinct (mem_successors_iff.1 hx) (mem_successors_iff.1 hy)
    (BlockName.render_injective hname)

end Marked

/-- A raw graph whose calls were led to markers is marked. -/
theorem Raw.marked (h : Raw start g) :
    Marked g (g.splitCallSites start).2 (g.splitCallSites start).1 := by
  have hentries : ∀ entry ∈ g.functionEntries, entry < g.size := fun entry hentry =>
    (h.mem_functionEntries_iff.1 hentry).1
  refine splitCallSites_live (P := Marked g (start :: g.functionEntries)) start ?_
    (fun hm => ⟨hm.split.mirrored, hm.split.size_le⟩) hentries ?_
  · refine ⟨h.unsplit, fun {a x} hx hsome => ?_, fun {a x y} hx hy hname => ?_⟩
    · obtain ⟨e, he⟩ := Option.isSome_iff_exists.1 hsome
      exact absurd (h.mirrored.lt_size he) (Nat.not_lt.2 hx)
    · obtain ⟨e, hx⟩ := Option.isSome_iff_exists.1 hx
      obtain ⟨e', hy⟩ := Option.isSome_iff_exists.1 hy
      exact h.catalogued.eq_of_ordinal (h.mirrored.lt_size hx) (h.mirrored.lt_size hy)
        (congrArg BlockName.pc hname) (congrArg BlockName.ordinal hname)
  · intro g' entry call hentry _ he hmarked
    exact hmarked.divertCall h.catalogued (List.mem_cons_of_mem _ hentry) (hentries entry hentry) he

/-! ## Joining blocks and dividing the graph -/

/-- A block that absorbs has the successors of one block, as before. -/
theorem Claimable.discerning_absorb (h : Claimable entries g) (hc : g.MergeCandidate p id next)
    (hd : Discerning g) : Discerning (g.absorb id next) := by
  have hne := hc.unequal.symm
  have hlt : ∀ {a x}, (g.edge? a x).isSome → x < g.size := by
    intro a x hx
    obtain ⟨e, hx⟩ := Option.isSome_iff_exists.1 hx
    exact h.mirrored.lt_size hx
  intro a x y hx hy hname
  rw [mem_successors_iff, hc.edge?_absorb h.mirrored] at hx hy
  split at hx
  · cases hx
  · rename_i hnext
    rw [if_neg hnext] at hy
    split at hx
    · rename_i hid
      rw [if_pos hid] at hy
      rw [h.name_absorb hne (hlt hx), h.name_absorb hne (hlt hy)] at hname
      exact hd _ _ _ (mem_successors_iff.2 hx) (mem_successors_iff.2 hy) hname
    · rename_i hid
      rw [if_neg hid] at hy
      rw [h.name_absorb hne (hlt hx), h.name_absorb hne (hlt hy)] at hname
      exact hd _ _ _ (mem_successors_iff.2 hx) (mem_successors_iff.2 hy) hname

/-- The run over all joins. -/
theorem Claimable.discerning_mergeStraightLines (h : Claimable entries g) (hd : Discerning g)
    (p : Profile) : Discerning (g.mergeStraightLines p).graph := by
  have hrun : Claimable entries (g.mergeStraightLines p).graph ∧
      Discerning (g.mergeStraightLines p).graph := by
    refine mergeStraightLines_induct (P := fun g => Claimable entries g ∧ Discerning g) p ⟨h, hd⟩ ?_
    rintro g id next hc ⟨h, hd⟩
    exact ⟨h.absorb hc, h.discerning_absorb hc hd⟩
  exact hrun.2

/-- Cutting functions out changes neither edges nor names. -/
theorem Claimed.discerning {tops : List BlockId} (h : Claimed g tops g') (hd : Discerning g) :
    Discerning g' := by
  intro a x y hx hy hname
  rw [h.same.successors] at hx hy
  rw [h.name, h.name] at hname
  exact hd a x y hx hy hname

end Graph

namespace FunctionMap

open TraceFlow.Graph

variable {s : Setup} {r : Recorder} {m : FunctionMap}

/-- What makes a map of functions one that can be walked by names: entries and edges lead to blocks
of the graph, and the successors of a block have different names. -/
structure Navigable (m : FunctionMap) : Prop where
  entry_lt : ∀ {name id}, m.functions.get? name = some id → id < m.graph.size
  successor_lt : ∀ {a b}, b ∈ m.graph.successors a → b < m.graph.size
  discerning : Discerning m.graph

/-- The map that any state of a recorder leads to can be walked by names. -/
theorem navigable (h : Recorder.Sound s r) :
    Navigable ((r.finish s.profile).functionMap s.profile) := by
  have hraw := h.raw_finish
  have hmerged := hraw.claimable.mergeStraightLines s.profile
  have hdiscerning := hraw.claimable.discerning_mergeStraightLines hraw.marked.discerning s.profile
  obtain ⟨hclaimed, hnamed, -⟩ :=
    claimed_partition hmerged.filed hmerged.unclaimed hmerged.entry_lt
  refine ⟨fun {name id} hid => ?_, fun {a b} hb => ?_, hclaimed.discerning hdiscerning⟩
  · obtain ⟨P, hP, -, -, rfl⟩ := mem_of_get?_placed hid
    exact hclaimed.same.size.symm ▸ hmerged.entry_lt _ (hnamed P hP).1
  · obtain ⟨e, he⟩ := Option.isSome_iff_exists.1 (mem_successors_iff.1 hb)
    exact (hmerged.mirrored.sameEdges hclaimed.same).lt_size he

end FunctionMap

end TraceFlow
