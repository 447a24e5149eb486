/-
TraceFlow.Proofs.FunctionMap — the functions of a trace take in all its
blocks.

`Complete` is the claim, of a map of functions: nothing is left in the
index and no block is reported to be left over; a block that was absorbed
has no edges and lies in no function; any other lies in a function of its
own, whose name it bears. No part of it can be read off the division by
itself, since the division takes in only what its entries reach. It follows
from what each stage keeps:

* the recorder makes every block an entry, or gives it an edge from an older
  block (`Sound`, through `Raw`);
* leading calls to markers and joining straight lines keep every block that
  is not absorbed within reach of an entry (`Claimable`);
* the division marks what its functions reach, and every entry is reached
  from one of them (`Claimed`, and here `Claimable.exists_topLevel`).

`Claimable.index_partition` is the first consequence: a block that is listed
was not absorbed, so some function has taken it from its list, and an index
whose lists are all empty is empty. `complete_of_claimable` assembles the
rest, for any way that a map is given by the three parts of the division
(`parts_functionMap`), and `every_block_claimed` states it for every state
of a recorder and for every trace.
-/
import TraceFlow.FunctionMap
import TraceFlow.Proofs.Graph.Claimable
import TraceFlow.Proofs.Graph.Claimed

namespace TraceFlow

namespace Graph

variable {g : Graph} {a b id : BlockId} {entries : List BlockId} {placed : List Placement}
  {P : Placement} {name : String}

/-- A path that leads elsewhere ends with an edge. -/
theorem Reaches.eq_or_edge (h : g.Reaches a b) : a = b ∨ ∃ x, (g.edge? x b).isSome := by
  induction h with
  | here => exact .inl rfl
  | step edge _ ih =>
    rcases ih with rfl | hlast
    · exact .inr ⟨_, mem_successors_iff.1 edge⟩
    · exact .inr hlast

/-- What is kept under a name is an entry of that name. -/
theorem mem_of_get?_placed {sort : Placement → Bool}
    (h : (SortedMap.ofList ((placed.filter sort).map fun P => (P.name, P.entry))).get? name =
      some a) : ∃ P ∈ placed, sort P = true ∧ P.name = name ∧ P.entry = a := by
  obtain ⟨P, hP, heq⟩ := List.mem_map.1 (SortedMap.mem_of_get?_ofList h)
  obtain ⟨hP, hsort⟩ := List.mem_filter.1 hP
  exact ⟨P, hP, hsort, congrArg Prod.fst heq, congrArg Prod.snd heq⟩

/-- Where names differ, no placement hides another of its sort. -/
theorem get?_placed_iff {sort : Placement → Bool}
    (hnames : ∀ P ∈ placed, ∀ P' ∈ placed, P.name = P'.name → P.entry = P'.entry) :
    (SortedMap.ofList ((placed.filter sort).map fun P => (P.name, P.entry))).get? name = some a ↔
      ∃ P ∈ placed, sort P = true ∧ P.name = name ∧ P.entry = a := by
  refine ⟨mem_of_get?_placed, ?_⟩
  rintro ⟨P, hP, hsort, rfl, rfl⟩
  refine SortedMap.get?_ofList (fun b hb => ?_)
    (List.mem_map.2 ⟨P, List.mem_filter.2 ⟨hP, hsort⟩, rfl⟩)
  obtain ⟨P', hP', heq⟩ := List.mem_map.1 hb
  obtain ⟨hname, rfl⟩ := Prod.mk.inj heq
  exact hnames P' (List.mem_filter.1 hP').1 P hP hname

/-- Where names differ, no function hides another. -/
theorem get?_topLevel (hnames : ∀ P ∈ placed, ∀ P' ∈ placed, P.name = P'.name → P.entry = P'.entry)
    (hP : P ∈ placed) (htop : P.isTopLevel = true) :
    (topLevel placed).get? P.name = some P.entry :=
  (get?_placed_iff hnames).2 ⟨P, hP, htop, rfl, rfl⟩

/-- A function of its own reaches every block that was not absorbed: an entry reaches the block, and
the entry is either such a function or reached from one. -/
theorem Claimable.exists_topLevel (h : Claimable entries g) (hid : id < g.size)
    (hunmerged : (g.block id).mergedInto = none) :
    ∃ P ∈ (g.partition entries).2, P.isTopLevel = true ∧ g.Reaches P.entry id := by
  obtain ⟨-, -, hreached⟩ := claimed_partition h.filed h.unclaimed h.entry_lt
  obtain ⟨e, he, hpath⟩ := h.covered hid hunmerged
  obtain ⟨t, ht, hentry⟩ := hreached e he
  obtain ⟨P, hP, rfl⟩ := List.mem_map.1 ht
  exact ⟨P, (List.mem_filter.1 hP).1, (List.mem_filter.1 hP).2, hentry.trans hpath⟩

/-- So the division leaves no block listed. -/
theorem Claimable.index_partition (h : Claimable entries g) :
    (g.partition entries).1.index = ∅ := by
  obtain ⟨hclaimed, -, -⟩ := claimed_partition h.filed h.unclaimed h.entry_lt
  refine hclaimed.filed.index_eq_empty fun pc => List.eq_nil_iff_forall_not_mem.2 fun id hid => ?_
  obtain ⟨hout, hlisted⟩ := (hclaimed.listed pc id).1 hid
  obtain ⟨P, hP, htop, hpath⟩ := h.exists_topLevel (h.filed.lt_size hlisted) (h.listed hlisted)
  exact hout P.entry (List.mem_map.2 ⟨P, List.mem_filter.2 ⟨hP, htop⟩, rfl⟩) hpath

end Graph

namespace FunctionMap

open TraceFlow.Graph

variable {s : Setup} {r : Recorder} {m : FunctionMap}

/-- The functions of a map take in all its blocks but those that others absorbed. -/
structure Complete (m : FunctionMap) : Prop where
  unlisted : m.graph.index = ∅
  clean : m.isClean = true
  absorbed : ∀ {id}, id < m.graph.size → (m.graph.block id).mergedInto ≠ none →
    (m.graph.block id).out = ∅ ∧ (m.graph.block id).into = ∅ ∧
      ∀ name entry, m.functions.get? name = some entry ∨ m.innerFunctions.get? name = some entry →
        id ∉ m.walk entry
  claimed : ∀ {id}, id < m.graph.size → (m.graph.block id).mergedInto = none →
    ∃ name entry, m.functions.get? name = some entry ∧ id ∈ m.walk entry ∧
      (m.graph.block id).within.contains name = true

/-- Dividing a claimable graph takes in all its blocks. -/
theorem complete_of_claimable {g : Graph} {entries : List BlockId} (h : Claimable entries g)
    (hgraph : m.graph = (g.partition entries).1)
    (hfunctions : m.functions = topLevel (g.partition entries).2)
    (hinner : m.innerFunctions = innerOnes (g.partition entries).2)
    (hclean : ∀ d ∈ m.diagnostics, d.isUnclaimed = true → m.graph.index ≠ ∅) : Complete m := by
  obtain ⟨hclaimed, hnamed, -⟩ := claimed_partition h.filed h.unclaimed h.entry_lt
  have htop : ∀ {id}, id < g.size → (g.block id).mergedInto = none →
      ∃ P ∈ (g.partition entries).2, P.isTopLevel = true ∧ g.Reaches P.entry id :=
    h.exists_topLevel
  have hunlisted : m.graph.index = ∅ := hgraph ▸ h.index_partition
  rw [← hgraph] at hclaimed
  generalize (g.partition entries).2 = placed at *
  have hsize := hclaimed.same.size
  have hwalk : ∀ {id entry}, id ∈ m.walk entry ↔ g.Reaches entry id := fun {id entry} =>
    mem_closure_iff.trans hclaimed.same.reaches
  have hnames : ∀ P ∈ placed, ∀ P' ∈ placed, P.name = P'.name → P.entry = P'.entry := by
    intro P hP P' hP' heq
    rw [(hnamed P hP).2, (hnamed P' hP').2] at heq
    exact h.names _ (hnamed P hP).1 _ (hnamed P' hP').1 heq
  refine ⟨hunlisted, ?_, fun {id} hid hmerged => ?_, fun {id} hid hunmerged => ?_⟩
  · unfold isClean
    rw [Bool.not_eq_true', List.any_eq_false]
    exact fun d hd hunclaimed => hclean d hd hunclaimed hunlisted
  · rw [hclaimed.mergedInto] at hmerged
    have hisolated := h.isolated hmerged
    refine ⟨SortedMap.ext_get? fun y => ?_, SortedMap.ext_get? fun x => ?_,
      fun name e he hmem => ?_⟩
    · rw [hclaimed.same.out, SortedMap.get?_empty]
      exact (hisolated y).1
    · rw [hclaimed.same.into, SortedMap.get?_empty]
      exact h.mirrored.arrivals?_eq_none (hisolated x).2
    · have hentry : e ∈ entries := by
        rw [hfunctions, hinner] at he
        rcases he with he | he
        · obtain ⟨P, hP, -, -, rfl⟩ := mem_of_get?_placed he
          exact (hnamed P hP).1
        · obtain ⟨P, hP, -, -, rfl⟩ := mem_of_get?_placed he
          exact (hnamed P hP).1
      rcases (hwalk.1 hmem).eq_or_edge with rfl | ⟨x, hx⟩
      · exact hmerged (h.entry_unmerged e hentry)
      · rw [(hisolated x).2] at hx
        cases hx
  · rw [hclaimed.mergedInto] at hunmerged
    rw [hsize] at hid
    obtain ⟨P, hP, hPtop, hpath⟩ := htop hid hunmerged
    refine ⟨P.name, P.entry, ?_, hwalk.2 hpath, ?_⟩
    · rw [hfunctions]
      exact get?_topLevel hnames hP hPtop
    · refine (hclaimed.within hid P.name).2 ⟨P.entry, ?_, (hnamed P hP).2, hpath⟩
      exact List.mem_map.2 ⟨P, List.mem_filter.2 ⟨hP, hPtop⟩, rfl⟩

/-- What a map of functions takes from the division of a graph. -/
theorem parts_functionMap (p : Profile) (raw : Recording) :
    let divided := ((raw.graph.splitCallSites raw.start).1.mergeStraightLines p).graph.partition
      (raw.graph.splitCallSites raw.start).2
    (raw.functionMap p).graph = divided.1 ∧ (raw.functionMap p).functions = topLevel divided.2 ∧
      (raw.functionMap p).innerFunctions = innerOnes divided.2 := by
  unfold Recording.functionMap Recording.extraction Extraction.of Extraction.functionMap
  exact ⟨rfl, rfl, rfl⟩

/-- The map that any state of a recorder leads to is complete. -/
theorem complete_functionMap (h : Recorder.Sound s r) :
    Complete ((r.finish s.profile).functionMap s.profile) := by
  obtain ⟨hgraph, hfunctions, hinner⟩ := parts_functionMap s.profile (r.finish s.profile)
  refine complete_of_claimable (h.raw_finish.claimable.mergeStraightLines s.profile) hgraph
    hfunctions hinner fun d hd hunclaimed hempty => ?_
  rcases List.mem_append.1 hd with hd | hd
  · rw [h.diagnostics d (List.mem_reverse.1 hd)] at hunclaimed
    cases hunclaimed
  · -- what is reported unclaimed is listed
    obtain ⟨name, hname, -⟩ := List.mem_map.1 hd
    obtain ⟨id, hid, -⟩ := List.mem_map.1 hname
    obtain ⟨pc, hlisted⟩ := mem_indexed_iff.1 hid
    change ((r.finish s.profile).extraction s.profile).graph.index = ∅ at hempty
    have hget : (∅ : SortedMap Address (List BlockId)).get? pc = none := SortedMap.get?_empty pc
    rw [listedAt, hempty, hget] at hlisted
    cases hlisted

/-- **The functions of a trace take in all its blocks**, whatever the CPU, the records and the lines
are: nothing is left in the index, no block is reported, a block that another absorbed has no edges
and lies in no function, and any other block lies in a function of its own and bears its name. -/
theorem every_block_claimed (s : Setup) :
    (∀ r, Recorder.Reached s r → Complete ((r.finish s.profile).functionMap s.profile)) ∧
      ∀ bytes, Complete (ofTrace s bytes) :=
  ⟨fun _ h => complete_functionMap h.sound,
    fun _ => complete_functionMap (Recorder.Reached.new.feedLines _).sound⟩

/-- A call that an interrupt comes upon, and the function that calls itself. -/
theorem every_block_claimed_recursion :
    let s : Setup := { profile := .gameBoy }
    let r := (Recorder.new .gameBoy).feedAll s
      [.instruction { pc := 0x100, opcode := [0xCD] }, .interrupt 1,
        .instruction { pc := 0x40, opcode := [0x00] },
        .instruction { pc := 0x41, opcode := [0xD9] },
        .instruction { pc := 0x200, opcode := [0xCD] },
        .instruction { pc := 0x200, opcode := [0xCD] },
        .instruction { pc := 0x203, opcode := [0x00] }]
    Recorder.Reached s r ∧ Complete ((r.finish s.profile).functionMap s.profile) :=
  have hr := Recorder.Reached.new.feedAll _
  ⟨hr, (every_block_claimed _).1 _ hr⟩

end FunctionMap

end TraceFlow
