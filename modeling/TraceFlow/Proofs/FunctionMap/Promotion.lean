/-
TraceFlow.Proofs.FunctionMap.Promotion — which entries that something leads
to become functions of their own.

Such an entry is promoted when no function that was cut out so far holds
it, and entries are tried by address. So the outcome depends on addresses,
and one may ask what it can still mean.

* `Claimable.mem_topEntries_iff` is the rule, from the lists of the division
  (`mem_topEntries_partition_iff`) with the place in the list turned into the
  order of addresses (`Raw.mem_before_iff`): an entry is promoted exactly
  when no function that nothing leads to, and none that precedes it, leads to
  it.
* `SelfContained` is what promotion is meant for: a promoted entry lies on a
  cycle that no function outside leads to. Two entries, of which only the
  later one leads to the earlier, refute it: the earlier is tried first, when
  nothing holds it yet. `promoted_from_cycle` is such a trace.
* `Partitioned` is what holds: the rule, and from it that whatever leads to a
  promoted entry lies in its function or in a promoted one that follows by
  address and that it does not lead to. So promotion means a closed cycle
  exactly when no other promoted function leads there.

`partitioned_of_decided` derives the second part from the first. A block
that leads to the entry lies in some function (`Complete.exists_function`);
that one leads to the entry too, so by the rule it is no function that
nothing leads to and does not precede, and it remains that it follows.
-/
import TraceFlow.Proofs.FunctionMap.Entries

namespace TraceFlow

namespace Graph

variable {g raw : Graph} {start e t : BlockId}

/-! ## The order in which entries are tried -/

/-- In front of an entry stand the block before the trace and the entries that precede it. -/
theorem Raw.mem_before_iff (h : Raw start raw) {before after : List BlockId}
    (hentries : raw.functionEntries = before ++ e :: after) (ht : t ∈ raw.functionEntries) :
    t ∈ before ↔ raw.Precedes t e := by
  have hordered := h.pairwise_functionEntries
  rw [hentries] at hordered ht
  obtain ⟨-, hrest, hacross⟩ := List.pairwise_append.1 hordered
  constructor
  · exact fun hbefore => hacross t hbefore e List.mem_cons_self
  · intro hprecedes
    rcases List.mem_append.1 ht with hbefore | hafter
    · exact hbefore
    · rcases List.mem_cons.1 hafter with rfl | hafter
      · exact absurd hprecedes (Precedes.irrefl raw t)
      · exact absurd hprecedes ((List.pairwise_cons.1 hrest).1 t hafter).asymm

/-- An entry that something leads to becomes a function of its own exactly when none that nothing
leads to, and none that precedes it, leads to it. -/
theorem Claimable.mem_topEntries_iff (hraw : Raw start raw)
    (h : Claimable (raw.splitCallSites start).2 g) (hstart : g.Unentered start)
    (he : e ∈ (raw.splitCallSites start).2) (hentered : (g.block e).inDegree ≠ 0) :
    e ∈ topEntries (g.partition (raw.splitCallSites start).2).2 ↔
      ∀ t ∈ topEntries (g.partition (raw.splitCallSites start).2).2,
        (g.block t).inDegree = 0 ∨ raw.Precedes t e → ¬g.Reaches t e := by
  have hfree := h.mirrored.inDegree_eq_zero_iff.2 hstart
  have hother : e ∈ raw.functionEntries := by
    refine (List.mem_cons.1 he).resolve_left ?_
    rintro rfl
    exact hentered hfree
  obtain ⟨before, after, hsplit⟩ := List.append_of_mem hother
  have hentries : (raw.splitCallSites start).2 = (start :: before) ++ e :: after :=
    congrArg (start :: ·) hsplit
  rw [mem_topEntries_partition_iff h.uncut h.entry_lt hraw.nodup_entries hentries,
    or_iff_right hentered]
  refine forall₂_congr fun t ht => imp_congr_left ?_
  rcases List.mem_cons.1 (h.topEntries_subset ht) with rfl | ht
  · exact iff_of_true (.inl hfree) (.inl hfree)
  · have hne : t ≠ start := fun heq => hraw.start_not_mem (heq ▸ ht)
    rw [List.mem_cons, or_iff_right hne, hraw.mem_before_iff hsplit ht]

end Graph

namespace FunctionMap

open TraceFlow.Graph

variable {s : Setup} {r : Recorder} {raw : Recording} {m : FunctionMap} {e t x : BlockId}

/-! ## Promoted entries -/

/-- A function of its own that something leads to. -/
def Promoted (m : FunctionMap) (e : BlockId) : Prop :=
  e ∈ m.functions.values ∧ (m.graph.block e).inDegree ≠ 0

/-- Every function of its own that something leads to is a closed cycle: whatever leads to it lies
in it. -/
def SelfContained (m : FunctionMap) : Prop :=
  ∀ e, m.Promoted e → ∀ x, e ∈ m.walk x → x ∈ m.walk e

/-- Which entries that something leads to became functions of their own, and what leads to
them. -/
structure Partitioned (raw : Recording) (m : FunctionMap) : Prop where
  decided : ∀ {e}, e ∈ raw.beginnings → (m.graph.block e).inDegree ≠ 0 →
    (e ∈ m.functions.values ↔ ∀ t ∈ m.functions.values,
      (m.graph.block t).inDegree = 0 ∨ raw.graph.Precedes t e → e ∉ m.walk t)
  entered : ∀ {e x}, m.Promoted e → e ∈ m.walk x → x ∈ m.walk e ∨
    ∃ t, m.Promoted t ∧ raw.graph.Precedes e t ∧ x ∈ m.walk t ∧ t ∉ m.walk e
  closed_iff : ∀ {e}, m.Promoted e →
    ((∀ x, e ∈ m.walk x → x ∈ m.walk e) ↔ ∀ t, m.Promoted t → t ≠ e → e ∉ m.walk t)

/-- A function of its own is kept under some name. -/
theorem mem_values_iff : e ∈ m.functions.values ↔ ∃ name, m.functions.get? name = some e := by
  simp [SortedMap.values, SortedMap.mem_entries_iff]

/-- A function of its own is a block that begins a function, listed under its name. -/
theorem Exact.of_mem_values (h : Exact raw m) (he : e ∈ m.functions.values) :
    e ∈ raw.beginnings ∧ m.functions.get? (raw.graph.name e) = some e := by
  obtain ⟨name, hname⟩ := mem_values_iff.1 he
  have hmem := h.once.subset (List.mem_append_left _ (SortedMap.mem_entries_iff.2 hname))
  obtain ⟨id, hid, heq⟩ := List.mem_map.1 hmem
  obtain ⟨rfl, rfl⟩ := Prod.mk.inj heq
  exact ⟨hid, hname⟩

/-- What a function leads to leads on within it. -/
theorem mem_walk_trans (hte : e ∈ m.walk t) (hex : x ∈ m.walk e) : x ∈ m.walk t :=
  mem_closure_iff.2 ((mem_closure_iff.1 hte).trans (mem_closure_iff.1 hex))

/-- A block that leads elsewhere lies in a function of its own. -/
theorem Complete.exists_function (h : Complete m) (hx : e ∈ m.walk x) (hne : x ≠ e) :
    ∃ t ∈ m.functions.values, x ∈ m.walk t := by
  obtain ⟨y, hy⟩ : ∃ y, (m.graph.edge? x y).isSome := by
    cases mem_closure_iff.1 hx with
    | here => exact absurd rfl hne
    | step edge _ => exact ⟨_, mem_successors_iff.1 edge⟩
  obtain ⟨edge, hedge⟩ := Option.isSome_iff_exists.1 hy
  have hunmerged : (m.graph.block x).mergedInto = none := by
    by_contra hmerged
    rw [Graph.edge?, (h.absorbed (lt_size_of_edge? hedge) hmerged).1, SortedMap.get?_empty] at hedge
    cases hedge
  obtain ⟨name, t, hname, hmem, -⟩ := h.claimed (lt_size_of_edge? hedge) hunmerged
  exact ⟨t, mem_values_iff.2 ⟨name, hname⟩, hmem⟩

/-- What decides about one entry at a time says what leads to those that were promoted. -/
theorem partitioned_of_decided (hexact : Exact raw m) (hcomplete : Complete m)
    (hdecided : ∀ {e}, e ∈ raw.beginnings → (m.graph.block e).inDegree ≠ 0 →
      (e ∈ m.functions.values ↔ ∀ t ∈ m.functions.values,
        (m.graph.block t).inDegree = 0 ∨ raw.graph.Precedes t e → e ∉ m.walk t)) :
    Partitioned raw m := by
  -- a function of its own that leads to a promoted one is tried after it
  have hlater : ∀ {e t}, m.Promoted e → t ∈ m.functions.values → t ≠ e → e ∈ m.walk t →
      m.Promoted t ∧ raw.graph.Precedes e t := by
    intro e t he ht hne hleads
    have hnot := (hdecided (hexact.of_mem_values he.1).1 he.2).1 he.1 t ht
    refine ⟨⟨ht, fun hzero => hnot (.inl hzero) hleads⟩, ?_⟩
    exact (precedes_or_precedes hne).resolve_left fun hprecedes => hnot (.inr hprecedes) hleads
  have hback : ∀ {e t}, m.Promoted e → m.Promoted t → raw.graph.Precedes e t → t ∉ m.walk e := by
    intro e t he ht hprecedes
    exact (hdecided (hexact.of_mem_values ht.1).1 ht.2).1 ht.1 e he.1 (.inr hprecedes)
  have hentered : ∀ {e x}, m.Promoted e → e ∈ m.walk x → x ∈ m.walk e ∨
      ∃ t, m.Promoted t ∧ raw.graph.Precedes e t ∧ x ∈ m.walk t ∧ t ∉ m.walk e := by
    intro e x he hx
    by_cases hxe : x = e
    · exact .inl (hxe ▸ mem_closure_iff.2 (.here x))
    · obtain ⟨t, ht, hmem⟩ := hcomplete.exists_function hx hxe
      by_cases hte : t = e
      · exact .inl (hte ▸ hmem)
      · obtain ⟨hpromoted, hprecedes⟩ := hlater he ht hte (mem_walk_trans hmem hx)
        exact .inr ⟨t, hpromoted, hprecedes, hmem, hback he hpromoted hprecedes⟩
  refine ⟨hdecided, hentered, fun {e} he => ⟨fun hclosed t ht hne hleads => ?_,
    fun hnone x hx => ?_⟩⟩
  · exact hback he ht (hlater he ht.1 hne hleads).2 (hclosed t hleads)
  · rcases hentered he hx with hmem | ⟨t, ht, hprecedes, hmem, -⟩
    · exact hmem
    · have hne : t ≠ e := by
        rintro rfl
        exact Precedes.irrefl _ t hprecedes
      exact absurd (mem_walk_trans hmem hx) (hnone t ht hne)

/-- Dividing a claimable graph decides about its entries by address. -/
theorem decided_of_claimable {g : Graph} (hraw : Raw raw.start raw.graph)
    (h : Claimable (raw.graph.splitCallSites raw.start).2 g) (hstart : g.Unentered raw.start)
    (hgraph : m.graph = (g.partition (raw.graph.splitCallSites raw.start).2).1)
    (hfunctions : m.functions =
      topLevel (g.partition (raw.graph.splitCallSites raw.start).2).2)
    (he : e ∈ (raw.graph.splitCallSites raw.start).2) (hentered : (m.graph.block e).inDegree ≠ 0) :
    e ∈ m.functions.values ↔ ∀ t ∈ m.functions.values,
      (m.graph.block t).inDegree = 0 ∨ raw.graph.Precedes t e → e ∉ m.walk t := by
  have hsame := h.claimed.same
  have hvalues : ∀ {t}, t ∈ m.functions.values ↔
      t ∈ topEntries (g.partition (raw.graph.splitCallSites raw.start).2).2 := by
    intro t
    rw [mem_values_iff, hfunctions]
    simp [h.get?_topLevel_iff]
  rw [← hgraph] at hsame
  have hdegree : ∀ t, (m.graph.block t).inDegree = (g.block t).inDegree := fun t => by
    rw [Block.inDegree, Block.inDegree, hsame.into]
  have hwalk : ∀ t, e ∈ m.walk t ↔ g.Reaches t e := fun t => mem_closure_iff.trans hsame.reaches
  simp only [hdegree, hwalk, hvalues] at hentered ⊢
  exact h.mem_topEntries_iff hraw hstart he hentered

/-- The rule and its consequence, for the map of a trace. -/
theorem partitioned_functionMap (h : Recorder.Reached s r) :
    Partitioned (r.finish s.profile) ((r.finish s.profile).functionMap s.profile) := by
  have hraw := h.sound.raw_finish
  have hkept := hraw.kept_split.trans (hraw.claimable.kept_mergeStraightLines s.profile)
  obtain ⟨hgraph, hfunctions, -⟩ := parts_functionMap s.profile (r.finish s.profile)
  refine partitioned_of_decided (exact_functionMap h) (complete_functionMap h.sound) ?_
  intro e he hentered
  exact decided_of_claimable hraw (hraw.claimable.mergeStraightLines s.profile)
    (hkept.unentered hraw.start_lt (unentered_start h)) hgraph hfunctions
    ((perm_beginnings h.sound).mem_iff.2 he) hentered

/-- Whoever leads into blocks that lead only to one another stays there. -/
theorem mem_of_mem_walk {S : List BlockId} (hS : ∀ a ∈ S, ∀ b ∈ m.graph.successors a, b ∈ S)
    (ha : a ∈ S) (hb : b ∈ m.walk a) : b ∈ S :=
  (reaches_iff_path.1 (mem_closure_iff.1 hb)).closed (P := (· ∈ S)) hS ha

/-! ## What becomes of an entry -/

/-- **What becomes of an entry that something leads to** is decided by address, whatever the CPU,
the records and the lines are: it becomes a function of its own exactly when no function that
nothing leads to, and none that precedes it, leads to it. Whatever leads to a promoted entry lies in
its function or in a promoted one that follows by address and that it does not lead to. So it is a
closed cycle exactly when no other promoted function leads to it. -/
theorem promotion_decided (s : Setup) :
    (∀ r, Recorder.Reached s r →
      Partitioned (r.finish s.profile) ((r.finish s.profile).functionMap s.profile)) ∧
      ∀ bytes, Partitioned (Recording.ofTrace s bytes) (ofTrace s bytes) :=
  ⟨fun _ h => partitioned_functionMap h,
    fun _ => partitioned_functionMap (Recorder.Reached.new.feedLines _)⟩

/-- A handler whose loop leads to another handler at a lower address. -/
def nestedHandlers : List UInt8 := Utf8.encode
  ("PC: 0100 | OPCODE: 00\nInterrupt: 40\nPC: 0040 | OPCODE: D9\nInterrupt: 48\n" ++
    "PC: 0048 | OPCODE: 20 | MEM: FE\nPC: 0048 | OPCODE: 20 | MEM: FE\n" ++
    "PC: 004A | OPCODE: C3 | MEM: 4000\nPC: 0040 | OPCODE: D9\n")

/-- The lower handler is tried first. -/
theorem promotion_decided_handlers :
    let s : Setup := { profile := .gameBoy }
    Recorder.Reached s (Recording.follow s nestedHandlers) ∧
      Partitioned (Recording.ofTrace s nestedHandlers) (ofTrace s nestedHandlers) :=
  have hr := Recorder.Reached.new.feedLines _
  ⟨hr, (promotion_decided _).1 _ hr⟩

/-- The lower handler is promoted although the upper one leads to it and it does not lead back, so
not every function of its own that something leads to is a closed cycle. -/
theorem promoted_from_cycle :
    let m := ofTrace { profile := .gameBoy } nestedHandlers
    m.functions.get? "int_0040" = some 2 ∧ 2 ∈ m.walk 3 ∧ 3 ∉ m.walk 2 ∧ ¬m.SelfContained := by
  intro m
  have hr : Recorder.Reached _ (Recording.follow { profile := .gameBoy } nestedHandlers) :=
    Recorder.Reached.new.feedLines _
  have hexact : Exact (Recording.ofTrace { profile := .gameBoy } nestedHandlers) m :=
    exact_functionMap hr
  have hpartitioned : Partitioned _ m := partitioned_functionMap hr
  have hsame : SameEdges ((Recording.ofTrace { profile := .gameBoy } nestedHandlers).extraction
      .gameBoy).merged.graph m.graph := sameEdges_functionMap hr.sound
  -- what the recorder, the cutting of calls and the joins compute; `walk` does not compute
  have hcomputed :
      let raw := Recording.ofTrace { profile := .gameBoy } nestedHandlers
      let joined := (raw.extraction .gameBoy).merged.graph
      raw.beginnings = [0, 2, 3] ∧ raw.graph.name 2 = "int_0040" ∧ ¬raw.graph.Precedes 3 2 ∧
        [0, 1, 2, 3, 4, 5].map joined.successors = [[1], [], [5], [3, 4], [2], []] ∧
        (joined.block 2).into.size = 1 ∧ (joined.block 3).into.size = 1 := by
    decide +kernel
  obtain ⟨hbegins, hname, hlater, hsuccessors, hinto₂, hinto₃⟩ := hcomputed
  rw [← hsame.successors] at hsuccessors
  rw [← hsame.into] at hinto₂ hinto₃
  obtain ⟨h₀, h₁, h₂, h₃, h₄, h₅⟩ : _ ∧ _ ∧ _ ∧ _ ∧ _ ∧ _ := by simpa using hsuccessors
  have hdegree₂ : (m.graph.block 2).inDegree ≠ 0 := by simp [Block.inDegree, hinto₂]
  have hdegree₃ : (m.graph.block 3).inDegree ≠ 0 := by simp [Block.inDegree, hinto₃]
  have hleads : 2 ∈ m.walk 3 := mem_closure_iff.2
    (.step (b := 4) (by simp [h₃]) (.step (b := 2) (by simp [h₄]) (.here 2)))
  have hnot : 3 ∉ m.walk 2 := fun hmem => by
    have := mem_of_mem_walk (S := [2, 5]) (by simp [h₂, h₅]) (by simp) hmem
    simp at this
  have hvalue : 2 ∈ m.functions.values := by
    refine (hpartitioned.decided (hbegins ▸ by simp) hdegree₂).2 fun t ht hearly hmem => ?_
    have hbefore := (hexact.of_mem_values ht).1
    simp only [hbegins, List.mem_cons, List.not_mem_nil, or_false] at hbefore
    rcases hbefore with rfl | rfl | rfl
    · have := mem_of_mem_walk (S := [0, 1]) (by simp [h₀, h₁]) (by simp) hmem
      simp at this
    · exact hearly.elim hdegree₂ (Precedes.irrefl _ _)
    · exact hearly.elim hdegree₃ hlater
  refine ⟨hname ▸ (hexact.of_mem_values hvalue).2, hleads, hnot, fun hclosed => ?_⟩
  exact hnot (hclosed 2 ⟨hvalue, hdegree₂⟩ 3 hleads)

end FunctionMap

end TraceFlow
