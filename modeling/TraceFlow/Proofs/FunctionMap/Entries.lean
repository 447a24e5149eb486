/-
TraceFlow.Proofs.FunctionMap.Entries — which blocks begin the functions of
a trace, and which blocks lie in them.

The claim is about the map of functions and the raw graph, which are three
stages apart. So the module follows the blocks that begin a function
through the stages.

* In the raw graph they are the block before the trace and the blocks that
  are called or handle an interrupt, each once (`Raw.mem_entries_iff`,
  `Raw.nodup_entries`); `Recording.beginnings` lists them without the stages.
* `Kept` relates graphs before and after a stage: blocks keep their names,
  and none is entered that was not entered before. Leading calls away and
  joins both keep it, and it composes (`Kept.trans`), so a block that nothing
  leads to in the raw graph is one that nothing leads to when the graph is
  divided.
* In the division an entry is listed under its name in one of two maps
  (`Claimable.get?_topLevel_iff`, `Claimable.get?_innerOnes_iff`, and
  `Claimable.get?_apart` for not in both). Names tell entries apart, so
  nothing hides anything, and the two maps together list all entries
  (`Claimable.perm_listed`).

`exact_of_claimable` puts these together for a graph that is claimable, and
`exact_functionMap` for a trace. What a block is marked with comes from
`Claimed`, with paths taken in the graph that was divided; the edges of the
map are the same (`sameEdges_functionMap`), so paths may be taken there.
-/
import TraceFlow.Proofs.FunctionMap
import TraceFlow.Proofs.Graph.Division

namespace TraceFlow

namespace Graph

variable {g g' g'' : Graph} {entries tops : List BlockId} {start id next e x : BlockId}
  {p : Profile} {n : String} {s : Setup} {r : Recorder}

/-! ## The blocks that begin a function -/

namespace Raw

/-- The entries, by what they are in the raw graph. -/
theorem mem_entries_iff (h : Raw start g) :
    id ∈ (g.splitCallSites start).2 ↔
      id = start ∨ id < g.size ∧ (g.block id).kind.isFunctionEntry = true := by
  show id ∈ start :: g.functionEntries ↔ _
  rw [List.mem_cons, h.mem_functionEntries_iff]

/-- What is called or handles an interrupt is listed by address. -/
theorem pairwise_functionEntries (h : Raw start g) : g.functionEntries.Pairwise g.Precedes :=
  h.catalogued.pairwise_indexed.filter _

/-- The block before the trace is not called and handles no interrupt. -/
theorem start_not_mem (h : Raw start g) : start ∉ g.functionEntries := by
  intro hmem
  have hkind := (h.mem_functionEntries_iff.1 hmem).2
  rw [h.start_kind] at hkind
  cases hkind

/-- No block is an entry twice. -/
theorem nodup_entries (h : Raw start g) : (g.splitCallSites start).2.Nodup := by
  refine List.nodup_cons.2 ⟨h.start_not_mem, h.pairwise_functionEntries.imp ?_⟩
  rintro a b hab rfl
  exact Precedes.irrefl g a hab

end Raw

/-! ## Blocks that nothing leads to -/

/-- No edge leads to a block. -/
def Unentered (g : Graph) (id : BlockId) : Prop := ∀ x, g.edge? x id = none

/-- A block without edges into it is one that nothing leads to. -/
theorem Mirrored.inDegree_eq_zero_iff (h : Mirrored g) :
    (g.block id).inDegree = 0 ↔ g.Unentered id := by
  constructor
  · intro hzero x
    have hnil : (g.block id).into.entries = [] :=
      List.eq_nil_of_length_eq_zero ((SortedMap.length_entries _).trans hzero)
    cases he : g.edge? x id with
    | none => rfl
    | some e =>
      have hmem := SortedMap.mem_entries_iff.2 (h.arrivals?_eq_some he)
      rw [hnil] at hmem
      cases hmem
  · intro hnone
    have hempty : (g.block id).into = ∅ := by
      refine SortedMap.ext_get? fun x => ?_
      rw [SortedMap.get?_empty]
      exact h.arrivals?_eq_none (hnone x)
    rw [Block.inDegree, hempty, ← SortedMap.length_entries, SortedMap.entries_empty]
    rfl

/-- Nothing leads to the block before a finished trace. -/
theorem unentered_start (h : Recorder.Reached s r) :
    (r.finish s.profile).graph.Unentered r.start := by
  intro x
  rw [h.sound.edge?_finish, if_neg fun heq => Nat.ne_of_lt h.sound.start_lt heq.2]
  exact h.edge?_start x

/-! ## What the passes keep -/

/-- The second graph has the blocks of the first, with their names, and leads to none of them that
nothing led to. -/
structure Kept (g g' : Graph) : Prop where
  size_le : g.size ≤ g'.size
  name : ∀ {id}, id < g.size → g'.name id = g.name id
  unentered : ∀ {id}, id < g.size → g.Unentered id → g'.Unentered id

theorem Kept.refl (g : Graph) : Kept g g := ⟨Nat.le_refl _, fun _ => rfl, fun _ h => h⟩

/-- What two stages keep, both keep together. -/
theorem Kept.trans (h : Kept g g') (h' : Kept g' g'') : Kept g g'' where
  size_le := Nat.le_trans h.size_le h'.size_le
  name hid := (h'.name (Nat.lt_of_lt_of_le hid h.size_le)).trans (h.name hid)
  unentered hid hnone := h'.unentered (Nat.lt_of_lt_of_le hid h.size_le) (h.unentered hid hnone)

/-- A call that is led to its marker leads to a new block instead of an old one. -/
theorem Raw.kept_split (h : Raw start g) : Kept g (g.splitCallSites start).1 := by
  have hsplit := h.split
  refine ⟨hsplit.size_le,
    fun hid => name_congr hsplit.digits (congrArg Block.name (hsplit.body hid) :),
    fun {id} hid hnone => ?_⟩
  have hrun : g.size ≤ (g.splitCallSites start).1.size ∧ Mirrored (g.splitCallSites start).1 ∧
      (g.splitCallSites start).1.Unentered id := by
    refine splitCallSites_induct (P := fun g' => g.size ≤ g'.size ∧ Mirrored g' ∧ g'.Unentered id)
      start ⟨Nat.le_refl _, h.mirrored, hnone⟩ ?_
    rintro g₁ g₂ entry call - hcall hsize ⟨-, hm₁, -⟩ ⟨hle, hm₂, hnone⟩
    obtain ⟨-, -, -, he⟩ := mem_callsOf_iff.1 hcall
    have hsource := Nat.lt_of_lt_of_le (lt_size_of_edge? he) hsize
    refine ⟨?_, hm₂.divertCall hsource, fun x => ?_⟩
    · rw [size_divertCall]
      exact Nat.le_succ_of_le hle
    · rw [← Option.not_isSome_iff_eq_none, isSome_edge?_divertCall hsource (hm₁.pos he)]
      rintro (⟨-, rfl⟩ | ⟨-, hsome⟩)
      · exact Nat.not_lt.2 hle hid
      · rw [hnone x] at hsome
        cases hsome
  exact hrun.2.2

namespace Claimable

/-- A join moves edges from one source to another. -/
theorem kept_absorb (h : Claimable entries g) (hc : g.MergeCandidate p id next) :
    Kept g (g.absorb id next) := by
  refine ⟨Nat.le_of_eq size_absorb.symm, h.name_absorb hc.unequal.symm, fun _ hnone x => ?_⟩
  rw [hc.edge?_absorb h.mirrored]
  split
  · rfl
  · split <;> exact hnone _

theorem kept_mergeStraightLines (h : Claimable entries g) (p : Profile) :
    Kept g (g.mergeStraightLines p).graph := by
  have hrun : Claimable entries (g.mergeStraightLines p).graph ∧
      Kept g (g.mergeStraightLines p).graph := by
    refine mergeStraightLines_induct (P := fun g' => Claimable entries g' ∧ Kept g g') p
      ⟨h, .refl g⟩ ?_
    rintro g' id next hc ⟨hclaimable, hkept⟩
    exact ⟨hclaimable.absorb hc, hkept.trans (hclaimable.kept_absorb hc)⟩
  exact hrun.2

end Claimable

/-! ## Looking entries up -/

namespace Claimable

variable (h : Claimable entries g)

include h

/-- Nothing is cut out of a claimable graph yet. -/
theorem uncut : Claimed g [] g := Claimed.start h.filed h.unclaimed

/-- The graph after the division, told by the functions that it cut out. -/
theorem claimed : Claimed g (topEntries (g.partition entries).2) (g.partition entries).1 :=
  (claimed_partition h.filed h.unclaimed h.entry_lt).1

theorem placed {P : Placement} (hP : P ∈ (g.partition entries).2) :
    P.entry ∈ entries ∧ P.name = g.name P.entry :=
  (claimed_partition h.filed h.unclaimed h.entry_lt).2.1 P hP

theorem topEntries_subset (he : e ∈ topEntries (g.partition entries).2) : e ∈ entries := by
  obtain ⟨P, hP, -, rfl⟩ := mem_topEntries_iff.1 he
  exact (h.placed hP).1

/-- Names tell entries apart. -/
theorem names_placed : ∀ P ∈ (g.partition entries).2, ∀ P' ∈ (g.partition entries).2,
    P.name = P'.name → P.entry = P'.entry := by
  intro P hP P' hP' hname
  rw [(h.placed hP).2, (h.placed hP').2] at hname
  exact h.names _ (h.placed hP).1 _ (h.placed hP').1 hname

/-- A function of its own is listed under its name, among those. -/
theorem get?_topLevel_iff : (topLevel (g.partition entries).2).get? n = some e ↔
    e ∈ topEntries (g.partition entries).2 ∧ n = g.name e := by
  unfold topLevel
  rw [get?_placed_iff h.names_placed, mem_topEntries_iff]
  constructor
  · rintro ⟨P, hP, htop, rfl, rfl⟩
    exact ⟨⟨P, hP, htop, rfl⟩, (h.placed hP).2⟩
  · rintro ⟨⟨P, hP, htop, rfl⟩, rfl⟩
    exact ⟨P, hP, htop, (h.placed hP).2, rfl⟩

/-- Any other entry is listed under its name, among the inner ones. -/
theorem get?_innerOnes_iff (hnodup : entries.Nodup) :
    (innerOnes (g.partition entries).2).get? n = some e ↔
      e ∈ entries ∧ e ∉ topEntries (g.partition entries).2 ∧ n = g.name e := by
  have hperm := perm_entries_partition h.uncut entries
  have hinner := fun {P} => not_isTopLevel_iff (P := P) (hperm.nodup_iff.2 hnodup)
  unfold innerOnes
  rw [get?_placed_iff h.names_placed]
  constructor
  · rintro ⟨P, hP, hnot, rfl, rfl⟩
    exact ⟨(h.placed hP).1, (hinner hP).1 (by simpa using hnot), (h.placed hP).2⟩
  · rintro ⟨he, hnot, rfl⟩
    obtain ⟨P, hP, rfl⟩ := List.mem_map.1 (hperm.mem_iff.2 he)
    exact ⟨P, hP, by simpa using (hinner hP).2 hnot, (h.placed hP).2, rfl⟩

/-- No name is listed in both maps. -/
theorem get?_apart (hnodup : entries.Nodup)
    (he : (topLevel (g.partition entries).2).get? n = some e) :
    (innerOnes (g.partition entries).2).get? n ≠ some x := by
  intro hx
  obtain ⟨htop, rfl⟩ := h.get?_topLevel_iff.1 he
  obtain ⟨hentry, hinner, hname⟩ := (h.get?_innerOnes_iff hnodup).1 hx
  exact hinner (h.names e (h.topEntries_subset htop) x hentry hname ▸ htop)

/-- Every entry is listed once, under its name. -/
theorem perm_listed (hnodup : entries.Nodup) :
    ((topLevel (g.partition entries).2).entries ++
      (innerOnes (g.partition entries).2).entries).Perm (entries.map fun e => (g.name e, e)) := by
  refine (List.perm_ext_iff_of_nodup ?_ ?_).2 fun ⟨n, e⟩ => ?_
  · refine List.nodup_append.2
      ⟨(SortedMap.nodup_keys _).of_map, (SortedMap.nodup_keys _).of_map, ?_⟩
    rintro ⟨n, e⟩ he ⟨n', e'⟩ he' heq
    obtain ⟨rfl, rfl⟩ := Prod.mk.inj heq
    exact h.get?_apart hnodup (SortedMap.mem_entries_iff.1 he) (SortedMap.mem_entries_iff.1 he')
  · exact hnodup.map fun a b heq => congrArg Prod.snd heq
  · rw [List.mem_append, SortedMap.mem_entries_iff, SortedMap.mem_entries_iff,
      h.get?_topLevel_iff, h.get?_innerOnes_iff hnodup, List.mem_map]
    constructor
    · rintro (⟨he, rfl⟩ | ⟨he, -, rfl⟩)
      · exact ⟨e, h.topEntries_subset he, rfl⟩
      · exact ⟨e, he, rfl⟩
    · rintro ⟨e, he, heq⟩
      obtain ⟨rfl, rfl⟩ := Prod.mk.inj heq
      exact (Classical.em _).imp (fun htop => ⟨htop, rfl⟩) fun hinner => ⟨he, hinner, rfl⟩

/-- An entry that nothing leads to is a function of its own. -/
theorem mem_topEntries_of_unentered (hnodup : entries.Nodup) (he : e ∈ entries)
    (hnone : g.Unentered e) : e ∈ topEntries (g.partition entries).2 := by
  obtain ⟨before, after, hentries⟩ := List.append_of_mem he
  exact (mem_topEntries_partition_iff h.uncut h.entry_lt hnodup hentries).2
    (.inl (h.mirrored.inDegree_eq_zero_iff.2 hnone))

end Claimable

end Graph

/-! ## The functions of a trace -/

/-- The blocks of a raw graph that begin a function: the one before the trace, and those that are
called or handle an interrupt. -/
def Recording.beginnings (r : Recording) : List BlockId :=
  r.graph.ids.filter fun id => id = r.start || (r.graph.block id).kind.isFunctionEntry

namespace FunctionMap

open TraceFlow.Graph

variable {s : Setup} {r : Recorder} {m : FunctionMap}

/-- The maps of functions list exactly the blocks of a raw graph that begin a function, and every
block bears exactly the names of the functions that lead to it. -/
structure Exact (r : Recording) (m : FunctionMap) : Prop where
  once : (m.functions.entries ++ m.innerFunctions.entries).Perm
    (r.beginnings.map fun id => (r.graph.name id, id))
  apart : ∀ name, ¬(m.functions.contains name = true ∧ m.innerFunctions.contains name = true)
  named : ∀ id ∈ r.beginnings, m.graph.name id = r.graph.name id
  unmerged : ∀ id ∈ r.beginnings, (m.graph.block id).mergedInto = none
  start : m.functions.get? (r.graph.name r.start) = some r.start
  free : ∀ id ∈ r.beginnings,
    (r.graph.block id).inDegree = 0 ∨ (m.graph.block id).inDegree = 0 →
      m.functions.get? (r.graph.name id) = some id
  entered : ∀ {name id}, m.innerFunctions.get? name = some id →
    (m.graph.block id).inDegree ≠ 0 ∧ ∃ n, (m.graph.block id).within.contains n = true
  within : ∀ {id}, id < m.graph.size → ∀ n, (m.graph.block id).within.contains n = true ↔
    ∃ e, m.functions.get? n = some e ∧ id ∈ m.walk e

theorem mem_beginnings_iff {r : Recording} {id : BlockId} : id ∈ r.beginnings ↔
    id < r.graph.size ∧ (id = r.start ∨ (r.graph.block id).kind.isFunctionEntry = true) := by
  simp [Recording.beginnings, ids]

/-- Dividing a claimable graph lists the blocks that begin a function in the graph it was made
of. -/
theorem exact_of_claimable {raw : Recording} {g : Graph} {entries : List BlockId}
    (h : Claimable entries g) (hentries : entries.Perm raw.beginnings) (hraw : Mirrored raw.graph)
    (hkept : Kept raw.graph g) (hstart : raw.start ∈ raw.beginnings)
    (hunentered : raw.graph.Unentered raw.start) (hgraph : m.graph = (g.partition entries).1)
    (hfunctions : m.functions = topLevel (g.partition entries).2)
    (hinner : m.innerFunctions = innerOnes (g.partition entries).2) : Exact raw m := by
  have hnodup : entries.Nodup := hentries.nodup_iff.2 (List.nodup_range.filter _)
  have hclaimed := h.claimed
  have htop := fun {n e} => h.get?_topLevel_iff (n := n) (e := e)
  have hrest := fun {n e} => h.get?_innerOnes_iff (n := n) (e := e) hnodup
  have hapart := fun {n e x} => h.get?_apart (n := n) (e := e) (x := x) hnodup
  have honce := (h.perm_listed hnodup).trans (hentries.map _)
  have hfree := fun {e} => h.mem_topEntries_of_unentered (e := e) hnodup
  have hreached := (claimed_partition h.filed h.unclaimed h.entry_lt).2.2
  rw [← hgraph] at hclaimed
  rw [← hfunctions] at htop hapart honce
  rw [← hinner] at hrest hapart honce
  have hold : ∀ id ∈ raw.beginnings, id < raw.graph.size := fun id hid =>
    (mem_beginnings_iff.1 hid).1
  have hdegree : ∀ id, (m.graph.block id).inDegree = 0 ↔ g.Unentered id := by
    intro id
    rw [(h.mirrored.sameEdges hclaimed.same).inDegree_eq_zero_iff]
    exact forall_congr' fun x => by rw [hclaimed.same.edge?]
  have hlisted : ∀ id ∈ raw.beginnings, g.Unentered id →
      m.functions.get? (raw.graph.name id) = some id := by
    intro id hid hnone
    exact htop.2 ⟨hfree (hentries.mem_iff.2 hid) hnone, (hkept.name (hold id hid)).symm⟩
  refine ⟨honce.trans ?_, ?_, fun id hid => ?_, fun id hid => ?_, ?_, ?_, ?_, ?_⟩
  · rw [List.map_congr_left fun id hid => by rw [hkept.name (hold id hid)]]
  · rintro n ⟨hin, hout⟩
    obtain ⟨e, he⟩ := Option.isSome_iff_exists.1 hin
    obtain ⟨e', he'⟩ := Option.isSome_iff_exists.1 hout
    exact hapart he he'
  · rw [hclaimed.name, hkept.name (hold id hid)]
  · rw [hclaimed.mergedInto]
    exact h.entry_unmerged id (hentries.mem_iff.2 hid)
  · exact hlisted _ hstart (hkept.unentered (hold _ hstart) hunentered)
  · rintro id hid (hzero | hzero)
    · exact hlisted id hid (hkept.unentered (hold id hid) (hraw.inDegree_eq_zero_iff.1 hzero))
    · exact hlisted id hid ((hdegree id).1 hzero)
  · intro name id hid
    obtain ⟨hentry, hnot, -⟩ := hrest.1 hid
    refine ⟨fun hzero => hnot (hfree hentry ((hdegree id).1 hzero)), ?_⟩
    obtain ⟨t, ht, hpath⟩ := hreached id hentry
    exact ⟨g.name t, (hclaimed.within (h.entry_lt id hentry) _).2 ⟨t, ht, rfl, hpath⟩⟩
  · intro id hid n
    rw [hclaimed.within (hclaimed.same.size ▸ hid)]
    constructor
    · rintro ⟨e, he, rfl, hpath⟩
      exact ⟨e, htop.2 ⟨he, rfl⟩, mem_closure_iff.2 (hclaimed.same.reaches.2 hpath)⟩
    · rintro ⟨e, he, hmem⟩
      obtain ⟨he, hn⟩ := htop.1 he
      exact ⟨e, he, hn, hclaimed.same.reaches.1 (mem_closure_iff.1 hmem)⟩

/-- The division draws no edge and takes none away. -/
theorem sameEdges_functionMap (h : Recorder.Sound s r) :
    SameEdges ((r.finish s.profile).extraction s.profile).merged.graph
      ((r.finish s.profile).functionMap s.profile).graph :=
  (h.raw_finish.claimable.mergeStraightLines s.profile).claimed.same

/-- The entries of the stages are the blocks that begin a function. -/
theorem perm_beginnings (h : Recorder.Sound s r) :
    ((r.finish s.profile).graph.splitCallSites r.start).2.Perm (r.finish s.profile).beginnings := by
  have hraw := h.raw_finish
  refine (List.perm_ext_iff_of_nodup hraw.nodup_entries (List.nodup_range.filter _)).2 fun id => ?_
  show _ ↔ id ∈ (r.finish s.profile).beginnings
  rw [hraw.mem_entries_iff, mem_beginnings_iff, and_or_left]
  exact or_congr_left ⟨fun heq => ⟨heq ▸ hraw.start_lt, heq⟩, And.right⟩

/-- The map that any state of a recorder leads to lists what begins a function. -/
theorem exact_functionMap (h : Recorder.Reached s r) :
    Exact (r.finish s.profile) ((r.finish s.profile).functionMap s.profile) := by
  have hraw := h.sound.raw_finish
  obtain ⟨hgraph, hfunctions, hinner⟩ := parts_functionMap s.profile (r.finish s.profile)
  exact exact_of_claimable (hraw.claimable.mergeStraightLines s.profile) (perm_beginnings h.sound)
    hraw.mirrored (hraw.kept_split.trans (hraw.claimable.kept_mergeStraightLines s.profile))
    (mem_beginnings_iff.2 ⟨hraw.start_lt, .inl rfl⟩) (unentered_start h) hgraph hfunctions hinner

/-- The entry of a function, inner or not, is a block that bears the function's name. -/
theorem name_of_listed {name : String} {entry : BlockId} (h : Recorder.Reached s r)
    (hentry : FunctionMap.entry? ((r.finish s.profile).functionMap s.profile) name = some entry) :
    ((r.finish s.profile).functionMap s.profile).graph.name entry = name ∧
      entry < ((r.finish s.profile).functionMap s.profile).graph.size := by
  have hexact := exact_functionMap h
  have hlisted : (name, entry) ∈
      ((r.finish s.profile).functionMap s.profile).functions.entries ++
        ((r.finish s.profile).functionMap s.profile).innerFunctions.entries := by
    rw [List.mem_append, SortedMap.mem_entries_iff, SortedMap.mem_entries_iff]
    exact (Option.or_eq_some_iff.1 hentry).imp_right And.right
  obtain ⟨id, hid, heq⟩ := List.mem_map.1 (hexact.once.subset hlisted)
  obtain ⟨rfl, rfl⟩ := Prod.mk.inj heq
  have hclaimable := h.sound.raw_finish.claimable.mergeStraightLines s.profile
  refine ⟨hexact.named id hid, (sameEdges_functionMap h.sound).size ▸ ?_⟩
  exact hclaimable.entry_lt id ((perm_beginnings h.sound).mem_iff.2 hid)

/-- The edges of a trace's map are held alike at both ends. -/
theorem mirrored_functionMap (h : Recorder.Sound s r) :
    Mirrored ((r.finish s.profile).functionMap s.profile).graph :=
  (h.raw_finish.claimable.mergeStraightLines s.profile).mirrored.sameEdges (sameEdges_functionMap h)

/-- **The maps of functions and the marks of blocks are exact**, whatever the CPU, the records and
the lines are: the block before the trace and every block that is called or handles an interrupt is
listed once, under its own name, in one of the two maps, and nothing else is; none of them was
absorbed. The block before the trace is a function of its own, and so is each that nothing leads to;
an inner function is entered and lies in another. A block lies in exactly the functions of their own
whose names it bears. -/
theorem functions_exact (s : Setup) :
    (∀ r, Recorder.Reached s r →
      Exact (r.finish s.profile) ((r.finish s.profile).functionMap s.profile)) ∧
      ∀ bytes, Exact (Recording.ofTrace s bytes) (ofTrace s bytes) :=
  ⟨fun _ h => exact_functionMap h, fun _ => exact_functionMap (Recorder.Reached.new.feedLines _)⟩

/-- Two calls, the second into the middle of the function that the first one called. -/
theorem functions_exact_inner :
    let s : Setup := { profile := .gameBoy }
    let r := (Recorder.new .gameBoy).feedAll s
      [.instruction { pc := 0x100, opcode := [0xCD] },
        .instruction { pc := 0x200, opcode := [0x00] },
        .instruction { pc := 0x201, opcode := [0xC9] },
        .instruction { pc := 0x103, opcode := [0xCD] },
        .instruction { pc := 0x201, opcode := [0xC9] },
        .instruction { pc := 0x106, opcode := [0x00] }]
    Recorder.Reached s r ∧ (r.finish s.profile).beginnings = [0, 2, 3] ∧
      Exact (r.finish s.profile) ((r.finish s.profile).functionMap s.profile) :=
  have hr := Recorder.Reached.new.feedAll _
  ⟨hr, by decide +kernel, (functions_exact _).1 _ hr⟩

end FunctionMap

end TraceFlow
