/-
TraceFlow.Proofs.Graph.StraightLines — joining straight lines keeps what
a graph means.

`Chained` describes the joined graph while joins go on, in terms that a
join can keep. This module starts it, runs it, and turns what it gives into
the statement that a reader expects.

* `exists_chained` is the run. Chains are chosen as joins are made, so the
  property that each join keeps is that some chains and heads describe the
  graph; `Chained.refl` and `Chained.absorb` are its two cases.
* `count_mergeStraightLines` counts joins by what they absorb: every join
  takes one block out of those not absorbed (`mergePasses_balance`).
* `Straightens chain head g m` is the statement: the chains divide the
  blocks, each is straight, surviving blocks are the heads, absorbed ones
  lead to theirs, and instructions, edges out, edges in and paths of `m`
  are those of `g`, read along the chains. `exists_straightens` derives its
  parts from `Chained`, a lemma for each that is not there already.

Two of them take an argument. Paths: a path between blocks that were not
absorbed runs through their chains (`reaches_of_joined`, by induction on the
path; each edge of the joined graph leaves the last block of a chain, which
the first one reaches). Edges into a block: they are the old ones with their
sources replaced by heads, as lists up to order (`into_perm`), since the
order is that of the sources.

`straight_lines_joined` says this for every trace, with nothing assumed.
-/
import Mathlib.Data.List.Nodup
import TraceFlow.FunctionMap
import TraceFlow.Proofs.Graph.Chains
import TraceFlow.Proofs.Graph.Claimable

namespace TraceFlow

namespace Graph

variable {g : Graph} {m : Merged} {p : Profile} {entries : List BlockId} {a b x y last : BlockId}
  {chain : BlockId → List BlockId} {head : BlockId → BlockId}

/-! ## The number of joins -/

/-- Every join takes one block out of those not absorbed. -/
theorem mergePasses_balance (p : Profile) (m : Merged) :
    (mergePasses p m).graph.unmerged + (mergePasses p m).count = m.graph.unmerged + m.count := by
  fun_induction mergePasses p m with
  | case1 m m' _ => exact (mergePass_balance p m).1
  | case2 m m' _ ih => exact ih.trans (mergePass_balance p m).1

/-- As many joins are made as blocks are absorbed, where none was absorbed before. -/
theorem count_mergeStraightLines (hunmerged : ∀ id, (g.block id).mergedInto = none)
    (hsize : (g.mergeStraightLines p).graph.size = g.size) :
    (g.mergeStraightLines p).count =
      (g.mergeStraightLines p).graph.absorbers.countP (·.isSome) := by
  have hbalance := mergePasses_balance p ⟨g, 0⟩
  change (g.mergeStraightLines p).graph.unmerged + (g.mergeStraightLines p).count =
    g.unmerged + 0 at hbalance
  have hlength : ∀ g : Graph, g.absorbers.length = g.size := fun g => by simp [absorbers, size]
  have hall : g.unmerged = g.size := by
    rw [unmerged, ← hlength, List.countP_eq_length]
    intro into hinto
    obtain ⟨id, hid⟩ := List.getElem?_of_mem hinto
    have hnone := hunmerged id
    rw [mergedInto_eq, hid] at hnone
    change into = none at hnone
    rw [hnone]
    rfl
  have hsplit := List.length_eq_countP_add_countP (·.isSome)
    (l := (g.mergeStraightLines p).graph.absorbers)
  have hrest : (g.mergeStraightLines p).graph.absorbers.countP (fun into => ¬into.isSome = true) =
      (g.mergeStraightLines p).graph.unmerged := by
    refine congrArg (List.countP · _) (funext fun into => ?_)
    cases into <;> rfl
  rw [hlength] at hsplit
  omega

/-! ## Joined graphs -/

/-- A graph with straight lines joined, told by the chains of the graph before: the block `b` is
made of the chain `chain b`, and the block `x` went into `head x`. -/
structure Straightens (chain : BlockId → List BlockId) (head : BlockId → BlockId) (g : Graph)
    (m : Merged) : Prop where
  size : m.graph.size = g.size
  divided : (g.ids.flatMap chain).Perm g.ids
  placed : ∀ {x}, x < g.size → x ∈ chain (head x)
  straight : ∀ b, (chain b).IsChain g.Follows
  survives : ∀ {b}, b < g.size → ((m.graph.block b).mergedInto = none ↔ b ∈ (chain b).head?)
  absorbed : ∀ {b}, (m.graph.block b).mergedInto ≠ none → chain b = []
  leads : ∀ {x}, x < g.size → (m.graph.block (head x)).mergedInto = none ∧
    Relation.ReflTransGen m.graph.AbsorbedBy x (head x)
  instructions : ∀ {b}, b < g.size → (m.graph.block b).mergedInto = none →
    (m.graph.block b).instructions.toList =
      (chain b).flatMap fun x => (g.block x).instructions.toList
  out : ∀ {b last}, last ∈ (chain b).getLast? → (m.graph.block b).out = (g.block last).out
  targets : ∀ {a b}, b ∈ m.graph.successors a → b ∈ (chain b).head?
  into : ∀ {b}, (m.graph.block b).mergedInto = none →
    (m.graph.linksInto b).Perm ((g.linksInto b).map fun l => { l with source := head l.source })
  once : ((g.ids.filter fun b => (m.graph.block b).mergedInto.isNone).flatMap fun b =>
    (m.graph.block b).instructions.toList).Perm
      (g.ids.flatMap fun x => (g.block x).instructions.toList)
  reaches : ∀ {a b}, a < g.size → b < g.size → (m.graph.block a).mergedInto = none →
    (m.graph.block b).mergedInto = none → (m.graph.Reaches a b ↔ g.Reaches a b)
  count : m.count = m.graph.absorbers.countP (·.isSome)

/-- In a mirrored graph the edges into a block are those that look-up finds. -/
theorem Mirrored.mem_linksInto_iff (h : Mirrored g) {l : Link} :
    l ∈ g.linksInto b ↔ l.target = b ∧ g.edge? l.source b = some ⟨l.kind, l.count⟩ := by
  rw [Graph.mem_linksInto_iff]
  refine and_congr_right fun _ => ⟨And.right, fun he => ⟨?_, he⟩⟩
  have harrivals := h.arrivals?_eq_some he
  unfold arrivals? at harrivals
  rw [SortedMap.mem_keys_iff, harrivals]
  rfl

theorem nodup_linksInto (g : Graph) (b : BlockId) : (g.linksInto b).Nodup := by
  refine List.Nodup.filterMap (fun x y l hx hy => ?_) (SortedMap.nodup_keys _)
  obtain ⟨e, -, hl⟩ := Option.map_eq_some_iff.1 hx
  obtain ⟨e', -, hl'⟩ := Option.map_eq_some_iff.1 hy
  exact congrArg Link.source (hl.trans hl'.symm)

namespace Chained

variable {g' : Graph} (h : Chained g g' chain head)

include h

/-- The chains divide the blocks. -/
theorem divided : (g.ids.flatMap chain).Perm g.ids := by
  refine (List.perm_ext_iff_of_nodup (List.nodup_flatMap.2 ⟨fun b _ => h.nodup b, ?_⟩)
    List.nodup_range).2 fun x => ?_
  · refine List.Pairwise.imp (fun {b c} hne => ?_) List.nodup_range
    intro x hb hc
    exact hne ((h.mem.1 hb).2.symm.trans (h.mem.1 hc).2)
  · rw [List.mem_flatMap]
    constructor
    · rintro ⟨b, -, hx⟩
      exact List.mem_range.2 (h.mem.1 hx).1
    · intro hx
      have hx := List.mem_range.1 hx
      exact ⟨head x, List.mem_range.2 (h.head_lt hx), h.mem.2 ⟨hx, rfl⟩⟩

/-- The block that another went into was not absorbed. -/
theorem head_unmerged (hx : x < g.size) : (g'.block (head x)).mergedInto = none := by
  by_contra hmerged
  have hmem : x ∈ chain (head x) := h.mem.2 ⟨hx, rfl⟩
  rw [h.absorbed hmerged] at hmem
  cases hmem

/-- A block survives exactly when it heads its chain. -/
theorem survives (hb : b < g.size) : (g'.block b).mergedInto = none ↔ b ∈ (chain b).head? := by
  refine ⟨h.headed hb, fun hhead => ?_⟩
  obtain ⟨-, heq⟩ := h.mem.1 (List.mem_of_mem_head? hhead)
  rw [← heq]
  exact h.head_unmerged hb

/-- A path of joined blocks runs through their chains. -/
theorem reaches_of_joined
    (hisolated : ∀ {a b}, (g'.edge? a b).isSome → (g'.block a).mergedInto = none)
    (hab : g'.Reaches a b) : g.Reaches a b := by
  induction hab with
  | here a => exact .here a
  | @step a c b edge _ ih =>
    have he := mem_successors_iff.1 edge
    obtain ⟨e, hsome⟩ := Option.isSome_iff_exists.1 he
    have hunmerged := hisolated he
    have hlt : a < g.size := h.size ▸ lt_size_of_edge? hsome
    obtain ⟨last, hlast⟩ := h.exists_last hlt hunmerged
    obtain ⟨rest, hrest⟩ : ∃ rest, chain a = a :: rest :=
      List.head?_eq_some_iff.1 (h.headed hlt hunmerged)
    have hstraight := h.straight a
    have hmem := List.mem_of_mem_getLast? hlast
    rw [hrest] at hstraight hmem
    have hend := reaches_of_mem_chain hstraight hmem
    rw [h.out hlast] at he
    exact hend.trans (.step (mem_successors_iff.2 he) ih)

/-- Between blocks that survive, the paths are the same. -/
theorem reaches_iff (hisolated : ∀ {a b}, (g'.edge? a b).isSome → (g'.block a).mergedInto = none)
    (ha : a < g.size) (hb : b < g.size) (hamerged : (g'.block a).mergedInto = none)
    (hbmerged : (g'.block b).mergedInto = none) : g'.Reaches a b ↔ g.Reaches a b := by
  refine ⟨h.reaches_of_joined hisolated, fun hab => ?_⟩
  have hpath := h.reaches hab
  rwa [h.head_eq ha hamerged, h.head_eq hb hbmerged] at hpath

/-- The edges into a block that was not absorbed come from the heads of the chains that their
sources end. -/
theorem into_perm (hm : Mirrored g) (hm' : Mirrored g')
    (hisolated : ∀ {a b}, (g'.edge? a b).isSome → (g'.block a).mergedInto = none)
    (hb : (g'.block b).mergedInto = none) :
    (g'.linksInto b).Perm ((g.linksInto b).map fun l => { l with source := head l.source }) := by
  have hend : ∀ {l : Link}, g.edge? l.source b = some ⟨l.kind, l.count⟩ →
      l.source ∈ (chain (head l.source)).getLast? := fun he => h.into (by rw [he]; rfl) hb
  refine (List.perm_ext_iff_of_nodup (nodup_linksInto g' b) ?_).2 fun l => ?_
  · refine List.Nodup.map_on (fun l hl l' hl' heq => ?_) (nodup_linksInto g b)
    have hl := hend (hm.mem_linksInto_iff.1 hl).2
    have hl' := hend (hm.mem_linksInto_iff.1 hl').2
    obtain ⟨hheads, htargets, hkinds, hcounts⟩ := Link.mk.inj heq
    rw [hheads] at hl
    have hsources := Option.mem_unique hl hl'
    cases l
    cases l'
    simp_all
  · rw [hm'.mem_linksInto_iff, List.mem_map]
    constructor
    · rintro ⟨htarget, he⟩
      have hsome : (g'.edge? l.source b).isSome := by rw [he]; rfl
      obtain ⟨last, hlast⟩ := h.exists_last (h.size ▸ lt_size_of_edge? he) (hisolated hsome)
      refine ⟨{ l with source := last }, hm.mem_linksInto_iff.2 ⟨htarget, ?_⟩, ?_⟩
      · rw [← h.out hlast, he]
      · show ({ l with source := head last } : Link) = l
        rw [(h.mem.1 (List.mem_of_mem_getLast? hlast)).2]
    · rintro ⟨l, hl, rfl⟩
      obtain ⟨htarget, he⟩ := hm.mem_linksInto_iff.1 hl
      refine ⟨htarget, ?_⟩
      show g'.edge? (head l.source) b = some ⟨l.kind, l.count⟩
      rw [h.out (hend he), he]

/-- The blocks that were not absorbed hold every instruction once. -/
theorem once : ((g.ids.filter fun b => (g'.block b).mergedInto.isNone).flatMap fun b =>
    (g'.block b).instructions.toList).Perm
      (g.ids.flatMap fun x => (g.block x).instructions.toList) := by
  -- the chains of blocks that were absorbed are empty
  have hkept : ∀ ids : List BlockId, (∀ b ∈ ids, b < g.size) →
      ((ids.filter fun b => (g'.block b).mergedInto.isNone).flatMap fun b =>
        (g'.block b).instructions.toList) =
      (ids.flatMap chain).flatMap fun x => (g.block x).instructions.toList := by
    intro ids hids
    induction ids with
    | nil => rfl
    | cons b ids ih =>
      have hrest := ih fun c hc => hids c (List.mem_cons_of_mem _ hc)
      rw [List.flatMap_cons, List.flatMap_append, ← hrest]
      cases hmerged : (g'.block b).mergedInto with
      | none =>
        rw [List.filter_cons_of_pos (by rw [hmerged]; rfl), List.flatMap_cons,
          h.instructions (hids b List.mem_cons_self) hmerged]
      | some into =>
        rw [List.filter_cons_of_neg (by simp [hmerged]),
          h.absorbed (by rw [hmerged]; exact Option.some_ne_none into)]
        rfl
  rw [hkept g.ids fun b hb => List.mem_range.1 hb]
  exact h.divided.flatMap_right _

end Chained

/-- What every join keeps, all joins keep: some chains describe the joined graph. -/
theorem exists_chained (hg : Claimable entries g) (hunmerged : ∀ id, (g.block id).mergedInto = none)
    (p : Profile) : ∃ chain head, Chained g (g.mergeStraightLines p).graph chain head := by
  have hrun : Claimable entries (g.mergeStraightLines p).graph ∧
      ∃ chain head, Chained g (g.mergeStraightLines p).graph chain head := by
    refine mergeStraightLines_induct
      (P := fun g' => Claimable entries g' ∧ ∃ chain head, Chained g g' chain head) p
      ⟨hg, _, _, .refl hunmerged⟩ ?_
    rintro g' id next hc ⟨hclaimable, chain, head, h⟩
    exact ⟨hclaimable.absorb hc, _, _, h.absorb hclaimable.mirrored hc hg.mirrored⟩
  exact hrun.2

/-- Joining the straight lines of a claimable graph in which no block was absorbed straightens
it. -/
theorem exists_straightens (hg : Claimable entries g)
    (hunmerged : ∀ id, (g.block id).mergedInto = none) (p : Profile) :
    ∃ chain head, Straightens chain head g (g.mergeStraightLines p) := by
  obtain ⟨chain, head, h⟩ := exists_chained hg hunmerged p
  have hjoined := hg.mergeStraightLines p
  have hfrom : ∀ {a b}, ((g.mergeStraightLines p).graph.edge? a b).isSome →
      ((g.mergeStraightLines p).graph.block a).mergedInto = none := by
    intro a b he
    by_contra hmerged
    rw [(hjoined.isolated hmerged b).1] at he
    cases he
  have hheads : ∀ {a b}, b ∈ (g.mergeStraightLines p).graph.successors a →
      b ∈ (chain b).head? := by
    intro a b hb
    obtain ⟨e, he⟩ := Option.isSome_iff_exists.1 (mem_successors_iff.1 hb)
    refine (h.survives (h.size ▸ hjoined.mirrored.lt_size he)).1 ?_
    by_contra hmerged
    rw [(hjoined.isolated hmerged a).2] at he
    cases he
  exact ⟨chain, head, {
    size := h.size
    divided := h.divided
    placed := fun hx => h.mem.2 ⟨hx, rfl⟩
    straight := h.straight
    survives := h.survives
    absorbed := h.absorbed
    leads := fun hx => ⟨h.head_unmerged hx, h.leads hx⟩
    instructions := h.instructions
    out := fun hlast => SortedMap.ext_get? (h.out hlast)
    targets := hheads
    into := h.into_perm hg.mirrored hjoined.mirrored hfrom
    once := h.once
    reaches := h.reaches_iff hfrom
    count := count_mergeStraightLines hunmerged h.size }⟩

end Graph

namespace Extraction

open TraceFlow.Graph

variable {s : Setup} {r : Recorder}

/-- Joining straight lines kept what the graph means. -/
def Straightened (e : Extraction) : Prop := ∃ chain head, Straightens chain head e.split e.merged

/-- The graph of a trace, as the stages join it. -/
theorem straightened_of_sound (h : Recorder.Sound s r) :
    Straightened ((r.finish s.profile).extraction s.profile) :=
  exists_straightens h.raw_finish.claimable h.raw_finish.unmerged_split s.profile

/-- **Joining straight lines keeps what a graph means**, whatever the CPU, the records and the
lines are: the blocks of the graph with calls led to markers fall into chains in which each is the
only successor of the one before and that one its only predecessor; the head of each chain, and no
other block, stays, with the instructions of the whole chain and the edges out of its last block;
edges into it come from the heads of their sources' chains. -/
theorem straight_lines_joined (s : Setup) :
    (∀ r, Recorder.Reached s r → Straightened ((r.finish s.profile).extraction s.profile)) ∧
      ∀ bytes, Straightened ((Recording.ofTrace s bytes).extraction s.profile) :=
  ⟨fun _ h => straightened_of_sound h.sound,
    fun _ => straightened_of_sound (Recorder.Reached.new.feedLines _).sound⟩

/-- Three instructions in a row, the last of which leads back to the second: that one absorbs the
last, and leads to itself from then on. -/
theorem straight_lines_joined_loop :
    let s : Setup := { profile := .gameBoy }
    let r := (Recorder.new .gameBoy).feedAll s
      [.instruction { pc := 0x100, opcode := [0x00] },
        .instruction { pc := 0x101, opcode := [0x00] },
        .instruction { pc := 0x102, opcode := [0x00] },
        .instruction { pc := 0x101, opcode := [0x00] },
        .instruction { pc := 0x102, opcode := [0x00] }]
    let e := (r.finish s.profile).extraction s.profile
    Recorder.Reached s r ∧ Straightened e ∧ e.merged.count = 1 ∧
      e.merged.graph.edge? 2 2 = some ⟨.normal, 1⟩ :=
  have hr := Recorder.Reached.new.feedAll _
  ⟨hr, (straight_lines_joined _).1 _ hr, by decide +kernel⟩

end Extraction

end TraceFlow
