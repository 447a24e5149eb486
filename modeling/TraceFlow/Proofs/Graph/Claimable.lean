/-
TraceFlow.Proofs.Graph.Claimable — graphs whose blocks the entries of
functions reach.

That no block is lost is true because of a path from an entry to every
block. The path has to survive two stages that take edges away, and
`Claimable entries g` is the invariant for both: every block that was not
absorbed is reached from an entry, the names of entries differ, entries
stay by themselves, and blocks that were absorbed have no edges.

* A raw graph is rooted: each block is an entry, the first block, or has an
  edge from an older one. `Split` keeps just that while calls are led to
  markers. The edge that is cut leads to an entry, which needs none; the
  marker comes after its call and is entered from it. So
  `Split.divertCall` is the step, `Raw.split` the run, and `Split.covered`
  turns it into paths, by strong induction on the number of the block:
  going back from edge to edge, numbers fall until an entry is met.
* Joins come next. A path in the old graph is one in the new graph with the
  candidate replaced (`MergeCandidate.reaches`), and no entry is a candidate
  (`Claimable.not_mem_entries`), so the entry at the front of the path is
  still there. `Claimable.absorb` is the step and
  `Claimable.mergeStraightLines` the run over all joins.

Names are part of the invariant because functions are kept by name: two
entries with one name would be one function. In a raw graph they differ by
`Catalogued.name_inj`, which reads address, ordinal and kind back from a
name; later stages change nothing that a name shows (`name_congr`).
-/
import Mathlib.Data.List.Basic
import TraceFlow.Proofs.BlockName
import TraceFlow.Proofs.Graph.Absorb
import TraceFlow.Proofs.Graph.Catalogue
import TraceFlow.Proofs.Recorder.Finish

namespace TraceFlow.Graph

variable {g g' : Graph} {entries : List BlockId} {start a b x y id entry : BlockId}

/-- What holds of a graph while calls are cut out of it and blocks are joined. -/
structure Claimable (entries : List BlockId) (g : Graph) : Prop where
  mirrored : Mirrored g
  filed : Filed g
  unclaimed : ∀ {id}, id < g.size → (g.block id).within = ∅
  instructions : ∀ {id}, id < g.size → (g.block id).instructions ≠ #[]
  listed : ∀ {pc id}, id ∈ g.listedAt pc → (g.block id).mergedInto = none
  entry_lt : ∀ e ∈ entries, e < g.size
  entry_unmerged : ∀ e ∈ entries, (g.block e).mergedInto = none
  entry_apart : ∀ e ∈ entries, (g.block e).isMergeable = true → (g.block e).kind ≠ .code
  names : ∀ e ∈ entries, ∀ e' ∈ entries, g.name e = g.name e' → e = e'
  covered : ∀ {id}, id < g.size → (g.block id).mergedInto = none → ∃ e ∈ entries, g.Reaches e id
  isolated : ∀ {id}, (g.block id).mergedInto ≠ none →
    ∀ x, g.edge? id x = none ∧ g.edge? x id = none

/-! ## Names -/

/-- No two blocks that are listed share their address and their ordinal. -/
theorem Catalogued.eq_of_ordinal (h : Catalogued g) (ha : a < g.size) (hb : b < g.size)
    (hpc : (g.block a).pc = (g.block b).pc) (hordinal : (g.block a).ordinal = (g.block b).ordinal) :
    a = b := by
  rw [h.ordinal ha, h.ordinal hb, hpc] at hordinal
  have hma : a ∈ g.listedAt (g.block b).pc := h.mem_listedAt_iff.2 ⟨ha, hpc⟩
  have hmb : b ∈ g.listedAt (g.block b).pc := h.mem_listedAt_iff.2 ⟨hb, rfl⟩
  unfold ordinalIn at hordinal
  split at hordinal
  · exact (List.idxOf_inj hma).1 (Option.some.inj hordinal)
  · -- an address with one block
    rename_i hshort
    obtain ⟨only, honly⟩ : ∃ only, g.listedAt (g.block b).pc = [only] :=
      List.length_eq_one_iff.1 (Nat.le_antisymm (Nat.le_of_not_lt hshort)
        (List.length_pos_of_mem hmb))
    rw [honly, List.mem_singleton] at hma hmb
    rw [hma, hmb]

/-- Blocks that are listed have different names. -/
theorem Catalogued.name_inj (h : Catalogued g) (ha : a < g.size) (hb : b < g.size)
    (hname : g.name a = g.name b) : a = b := by
  have hname := BlockName.render_injective hname
  exact h.eq_of_ordinal ha hb (congrArg BlockName.pc hname) (congrArg BlockName.ordinal hname)

/-- A name depends on the block and on the digits of the graph. -/
theorem name_congr (hdigits : g'.digits = g.digits)
    (hname : (g'.block id).name = (g.block id).name) : g'.name id = g.name id := by
  rw [name, name, hdigits, hname]

/-! ## Cutting calls out -/

/-- The edge of a call is gone, and there is one to its marker instead. -/
theorem isSome_edge?_divertCall {call : Link} (hsource : call.source < g.size)
    (hcount : 0 < call.count) :
    ((divertCall entry g call).edge? x y).isSome ↔
      (x = call.source ∧ y = g.size) ∨
        (¬(x = call.source ∧ y = entry) ∧ (g.edge? x y).isSome) := by
  have hlt : call.source < ((g.unlink call.source entry).alloc (g.callMarker entry)).1.size := by
    rw [size_alloc, size_unlink]
    exact Nat.lt_succ_of_lt hsource
  have hparted : ((g.unlink call.source entry).alloc (g.callMarker entry)).1.edge? x y =
      if x = call.source ∧ y = entry then none else g.edge? x y := by
    rw [edge?_alloc rfl, edge?_unlink]
  unfold divertCall
  simp only
  rw [edge?_link hlt hcount, hparted, snd_alloc, size_unlink]
  split
  · rename_i hnew
    exact ⟨fun _ => .inl hnew, fun _ => rfl⟩
  · rename_i hnew
    split
    · rename_i hcut
      exact ⟨fun h => (nomatch h), fun h => absurd hcut (h.resolve_left hnew).1⟩
    · rename_i hcut
      exact ⟨fun h => .inr ⟨hcut, h⟩, fun h => (h.resolve_left hnew).2⟩

/-- Only the marker is new. -/
theorem body_divertCall (entry : BlockId) (g : Graph) (call : Link) (id : BlockId) :
    ((divertCall entry g call).block id).body =
      if id = g.size then (g.callMarker entry).body else (g.block id).body := by
  unfold divertCall
  simp only
  rw [body_link, block_alloc, size_unlink]
  split
  · rfl
  · exact body_unlink

/-- What calls led to markers leave of a raw graph `g`, whose functions begin at `entries`. -/
structure Split (g : Graph) (entries : List BlockId) (g' : Graph) : Prop where
  mirrored : Mirrored g'
  index : g'.index = g.index
  digits : g'.digits = g.digits
  size_le : g.size ≤ g'.size
  body : ∀ {id}, id < g.size → (g'.block id).body = (g.block id).body
  made : ∀ {id}, g.size ≤ id → id < g'.size → (g'.block id).instructions ≠ #[] ∧
    (g'.block id).mergedInto = none ∧ (g'.block id).within = ∅
  rooted : ∀ {id}, id < g'.size → id ∈ entries ∨ ∃ a, a < id ∧ (g'.edge? a id).isSome

namespace Split

/-- The step: leading one call to its marker leaves every block rooted. -/
theorem divertCall (h : Split g entries g') (hentry : entry ∈ entries) {call : Link}
    (hsource : call.source < g'.size) (hcount : 0 < call.count) :
    Split g entries (divertCall entry g' call) := by
  have hsize := size_divertCall entry g' call
  have hbody := body_divertCall entry g' call
  refine ⟨h.mirrored.divertCall hsource, ?_, ?_, ?_, fun {id} hid => ?_, fun {id} hge hid => ?_,
    fun {id} hid => ?_⟩
  · rw [index_divertCall, h.index]
  · rw [digits_divertCall, h.digits]
  · rw [hsize]
    exact Nat.le_succ_of_le h.size_le
  · rw [hbody, if_neg (Nat.ne_of_lt (Nat.lt_of_lt_of_le hid h.size_le)), h.body hid]
  · rcases Nat.lt_succ_iff_lt_or_eq.1 (hsize ▸ hid) with hlt | rfl
    · have hsame := (hbody id).trans (if_neg (Nat.ne_of_lt hlt))
      obtain ⟨hinstructions, hmerged, hwithin⟩ := h.made hge hlt
      exact ⟨fun hempty => hinstructions ((congrArg Block.instructions hsame).symm.trans hempty),
        (congrArg Block.mergedInto hsame).trans hmerged,
        (congrArg Block.within hsame).trans hwithin⟩
    · have hmarker := (hbody g'.size).trans (if_pos rfl)
      refine ⟨fun hempty => ?_, (congrArg Block.mergedInto hmarker :),
        (congrArg Block.within hmarker :)⟩
      have hinstructions := (congrArg Block.instructions hmarker).symm.trans hempty
      simp [Block.body, callMarker, Block.marker] at hinstructions
  · rcases Nat.lt_succ_iff_lt_or_eq.1 (hsize ▸ hid) with hlt | rfl
    · rcases h.rooted hlt with hmem | ⟨a, ha, hsome⟩
      · exact .inl hmem
      · by_cases hcut : a = call.source ∧ id = entry
        · exact .inl (hcut.2 ▸ hentry)
        · exact .inr ⟨a, ha, (isSome_edge?_divertCall hsource hcount).2 (.inr ⟨hcut, hsome⟩)⟩
    · exact .inr ⟨call.source, hsource,
        (isSome_edge?_divertCall hsource hcount).2 (.inl ⟨rfl, rfl⟩)⟩

/-- Going back from edge to edge ends at an entry. -/
theorem covered (h : Split g entries g') (hid : id < g'.size) :
    ∃ e ∈ entries, g'.Reaches e id := by
  induction id using Nat.strongRecOn with
  | ind id ih =>
    rcases h.rooted hid with hmem | ⟨a, ha, hsome⟩
    · exact ⟨id, hmem, .here id⟩
    · obtain ⟨e, he, hpath⟩ := ih a ha (Nat.lt_trans ha hid)
      exact ⟨e, he, hpath.trans (.step (mem_successors_iff.2 hsome) (.here id))⟩

end Split

namespace Raw

/-- In a raw graph the functions begin at all blocks of that kind. -/
theorem mem_functionEntries_iff (h : Raw start g) :
    id ∈ g.functionEntries ↔ id < g.size ∧ (g.block id).kind.isFunctionEntry = true := by
  unfold functionEntries
  rw [List.mem_filter, mem_indexed_iff]
  refine and_congr_left fun _ => ⟨fun ⟨pc, hmem⟩ => h.catalogued.filed.lt_size hmem,
    fun hid => ⟨_, h.catalogued.mem_listedAt_iff.2 ⟨hid, rfl⟩⟩⟩

/-- Before any call is led to a marker. -/
theorem unsplit (h : Raw start g) : Split g (start :: g.functionEntries) g := by
  refine ⟨h.mirrored, rfl, rfl, Nat.le_refl _, fun _ => rfl,
    fun hge hlt => absurd hlt (Nat.not_lt.2 hge), fun {id} hid => ?_⟩
  rcases h.rooted hid with rfl | hkind | ⟨a, ha, hpos⟩
  · exact .inl List.mem_cons_self
  · exact .inl (List.mem_cons_of_mem _ (h.mem_functionEntries_iff.2 ⟨hid, hkind⟩))
  · exact .inr ⟨a, ha, h.mirrored.traversals_pos_iff.1 hpos⟩

/-- The run over all calls. -/
theorem split (h : Raw start g) :
    Split g (g.splitCallSites start).2 (g.splitCallSites start).1 := by
  refine splitCallSites_induct start h.unsplit ?_
  intro g₁ g₂ entry call hentry hcall hsize h₁ h₂
  obtain ⟨-, -, -, he⟩ := mem_callsOf_iff.1 hcall
  exact h₂.divertCall (List.mem_cons_of_mem _ hentry)
    (Nat.lt_of_lt_of_le (lt_size_of_edge? he) hsize) (h₁.mirrored.pos he)

/-- No block is absorbed while calls are led to markers. -/
theorem unmerged_split (h : Raw start g) (id : BlockId) :
    ((g.splitCallSites start).1.block id).mergedInto = none := by
  have hsplit := h.split
  rcases Nat.lt_or_ge id (g.splitCallSites start).1.size with hlt | hge
  · rcases Nat.lt_or_ge id g.size with hold | hnew
    · exact (congrArg Block.mergedInto (hsplit.body hold)).trans (h.unmerged hold)
    · exact (hsplit.made hnew hlt).2.1
  · rw [block_of_size_le hge]
    rfl

/-- A raw graph whose calls were led to markers has its blocks reached from its entries. -/
theorem claimable (h : Raw start g) :
    Claimable (g.splitCallSites start).2 (g.splitCallSites start).1 := by
  have hsplit := h.split
  have hentry : ∀ e ∈ (g.splitCallSites start).2, e < g.size ∧
      (e = start ∨ (g.block e).kind.isFunctionEntry = true) := by
    intro e he
    rcases List.mem_cons.1 he with rfl | he
    · exact ⟨h.start_lt, .inl rfl⟩
    · exact (h.mem_functionEntries_iff.1 he).imp_right .inr
  have hunmerged := h.unmerged_split
  generalize (g.splitCallSites start).2 = entries at *
  generalize (g.splitCallSites start).1 = g' at *
  refine ⟨hsplit.mirrored, ?_, fun {id} hid => ?_, fun {id} hid => ?_, fun _ => hunmerged _,
    fun e he => ?_, fun e _ => hunmerged e, fun e he hmergeable => ?_, fun e he e' he' hname => ?_,
    fun hid _ => hsplit.covered hid, fun hmerged => absurd (hunmerged _) hmerged⟩
  · exact h.catalogued.filed.of_index_eq hsplit.index hsplit.size_le fun id hid =>
      (congrArg Block.pc (hsplit.body hid) :)
  · rcases Nat.lt_or_ge id g.size with hold | hnew
    · exact (congrArg Block.within (hsplit.body hold)).trans (h.within hold)
    · exact (hsplit.made hnew hid).2.2
  · rcases Nat.lt_or_ge id g.size with hold | hnew
    · have hsame := congrArg Block.instructions (hsplit.body hold)
      exact fun hempty => h.instructions hold (hsame.symm.trans hempty)
    · exact (hsplit.made hnew hid).1
  · exact Nat.lt_of_lt_of_le (hentry e he).1 hsplit.size_le
  · obtain ⟨hlt, rfl | hkind⟩ := hentry e he
    · have hsynthetic : (g'.block e).synthetic = (g.block e).synthetic :=
        (congrArg Block.synthetic (hsplit.body hlt) :)
      rw [Block.isMergeable, hsynthetic] at hmergeable
      exact absurd hmergeable (by rw [← Block.isMergeable, h.start_apart]; decide)
    · have hsame : (g'.block e).kind = (g.block e).kind :=
        (congrArg Block.kind (hsplit.body hlt) :)
      rw [hsame]
      rintro hcode
      rw [hcode] at hkind
      cases hkind
  · have hsame : ∀ {x}, x < g.size → g'.name x = g.name x := fun hx =>
      name_congr hsplit.digits (congrArg Block.name (hsplit.body hx) :)
    rw [hsame (hentry e he).1, hsame (hentry e' he').1] at hname
    exact h.catalogued.name_inj (hentry e he).1 (hentry e' he').1 hname

end Raw

/-! ## Joining blocks -/

namespace Claimable

variable {p : Profile} {next : BlockId}

/-- No entry is absorbed: a block that begins a function is no plain code, and the block before the
trace is not merged. -/
theorem not_mem_entries (h : Claimable entries g) (hc : g.MergeCandidate p id next) :
    next ∉ entries := fun hnext =>
  h.entry_apart next hnext hc.nextMergeable hc.nextCode

/-- A join takes the candidate from the lists. -/
theorem listedAt_absorb (h : Claimable entries g) (id next : BlockId) (pc : Address) :
    (g.absorb id next).listedAt pc = (g.listedAt pc).filter (· ≠ next) := by
  have hjoined := h.filed.joined h.instructions id next
  rw [absorb_eq, hjoined.listedAt_unindex, listedAt_congr index_joined]

theorem mem_listedAt_absorb (h : Claimable entries g) {pc : Address}
    (hx : x ∈ (g.absorb id next).listedAt pc) : x ≠ next ∧ x ∈ g.listedAt pc := by
  rw [h.listedAt_absorb, List.mem_filter] at hx
  exact ⟨by simpa using hx.2, hx.1⟩

/-- Blocks keep their names in a join. -/
theorem name_absorb (h : Claimable entries g) (hne : id ≠ next) (hx : x < g.size) :
    (g.absorb id next).name x = g.name x := by
  have hpc := pc_absorb id next (h.instructions hx)
  have hshell := shell_absorb (g := g) hne x
  have hdigits : (g.absorb id next).digits = g.digits := digits_absorb
  generalize g.absorb id next = g' at *
  refine name_congr hdigits ?_
  rw [Block.name, Block.name, hpc, Block.isSynthetic, Block.isSynthetic]
  exact (congrArg (fun b : Block => (⟨b.kind, (g.block x).pc, b.ordinal, b.synthetic.isSome⟩ :
    BlockName)) hshell :)

/-- A path to a block that stays is a path behind the join. -/
theorem covered_absorb (h : Claimable entries g) (hc : g.MergeCandidate p id next)
    (hx : x < g.size) (hunmerged : ((g.absorb id next).block x).mergedInto = none) :
    ∃ e ∈ entries, (g.absorb id next).Reaches e x := by
  rw [mergedInto_absorb hc.unequal.symm (hc.next_lt_size h.mirrored)] at hunmerged
  have hxn : x ≠ next := by
    rintro rfl
    rw [if_pos rfl] at hunmerged
    cases hunmerged
  rw [if_neg hxn] at hunmerged
  obtain ⟨e, he, hreaches⟩ := h.covered hx hunmerged
  have hen : e ≠ next := fun heq => h.not_mem_entries hc (heq ▸ he)
  have hpath := hc.reaches h.mirrored hreaches
  rw [if_neg hen, if_neg hxn] at hpath
  exact ⟨e, he, hpath⟩

/-- The absorbed block loses its edges, and others that were absorbed get none. -/
theorem isolated_absorb (h : Claimable entries g) (hc : g.MergeCandidate p id next)
    (hx : ((g.absorb id next).block x).mergedInto ≠ none) (y : BlockId) :
    (g.absorb id next).edge? x y = none ∧ (g.absorb id next).edge? y x = none := by
  have hedge := hc.edge?_absorb h.mirrored
  by_cases hxn : x = next
  · subst hxn
    refine ⟨by rw [hedge, if_pos rfl], ?_⟩
    rw [hedge]
    split
    · rfl
    · split
      · exact hc.edge?_next_next h.mirrored
      · rename_i hyid
        rw [← Option.not_isSome_iff_eq_none, hc.isSome_edge?_into h.mirrored]
        exact hyid
  · rw [mergedInto_absorb hc.unequal.symm (hc.next_lt_size h.mirrored), if_neg hxn] at hx
    have hxid : x ≠ id := by
      rintro rfl
      exact hx hc.unmerged
    refine ⟨by rw [hedge, if_neg hxn, if_neg hxid, (h.isolated hx y).1], ?_⟩
    rw [hedge]
    split
    · rfl
    · split
      · exact (h.isolated hx next).2
      · exact (h.isolated hx y).2

/-- The step: joining a candidate keeps a graph claimable. -/
theorem absorb (h : Claimable entries g) (hc : g.MergeCandidate p id next) :
    Claimable entries (g.absorb id next) := by
  have hne := hc.unequal.symm
  have hshell := fun x => shell_absorb (g := g) hne x
  have hmerged := mergedInto_absorb hne (hc.next_lt_size h.mirrored)
  have hlisted : ∀ {pc x}, x ∈ (g.absorb id next).listedAt pc → x ≠ next ∧ x ∈ g.listedAt pc :=
    h.mem_listedAt_absorb
  have hentry : ∀ e ∈ entries, e ≠ next := fun e he heq => h.not_mem_entries hc (heq ▸ he)
  have htail := instructions_absorb g id next
  have hname := fun {x} => h.name_absorb (x := x) hne
  have hcovered := fun {x} => h.covered_absorb (x := x) hc
  have hisolated := fun {x} => h.isolated_absorb (x := x) hc
  have hmirrored := h.mirrored.absorb hc.lt_size next
  have hfiled : Filed (g.absorb id next) := (h.filed.joined h.instructions id next).unindex next
  have hsize : (g.absorb id next).size = g.size := size_absorb
  generalize g.absorb id next = g' at *
  refine ⟨hmirrored, hfiled, fun {x} hx => ?_, fun {x} hx => ?_, fun {pc x} hx => ?_,
    fun e he => ?_, fun e he => ?_, fun e he hmergeable => ?_, fun e he e' he' heq => ?_,
    fun {x} hx => hcovered (hsize ▸ hx), hisolated⟩
  · exact (congrArg Block.within (hshell x)).trans (h.unclaimed (hsize ▸ hx))
  · obtain ⟨tail, htail⟩ := htail x
    rw [htail]
    exact fun hempty => h.instructions (hsize ▸ hx) (Array.append_eq_empty_iff.1 hempty).1
  · obtain ⟨hxn, hx⟩ := hlisted hx
    rw [hmerged, if_neg hxn]
    exact h.listed hx
  · exact hsize.symm ▸ h.entry_lt e he
  · rw [hmerged, if_neg (hentry e he)]
    exact h.entry_unmerged e he
  · have hsynthetic : (g'.block e).synthetic = (g.block e).synthetic :=
      (congrArg Block.synthetic (hshell e) :)
    have hkind : (g'.block e).kind = (g.block e).kind := (congrArg Block.kind (hshell e) :)
    rw [Block.isMergeable, hsynthetic] at hmergeable
    rw [hkind]
    exact h.entry_apart e he hmergeable
  · rw [hname (h.entry_lt e he), hname (h.entry_lt e' he')] at heq
    exact h.names e he e' he' heq

/-- Joining all straight lines keeps a graph claimable. -/
theorem mergeStraightLines (h : Claimable entries g) (p : Profile) :
    Claimable entries (g.mergeStraightLines p).graph :=
  mergeStraightLines_induct p h fun _ _ _ hc h => h.absorb hc

end Claimable

end TraceFlow.Graph
