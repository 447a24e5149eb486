/-
TraceFlow.Proofs.Graph.BasicBlocks — joining straight lines ends, and
makes basic blocks.

That a block is basic cannot be claimed of every graph: a block may come
with instructions in an order that no join would make. What can be said of
every graph is that joins add nothing of that sort.

* `overruns` are the places of a run of instructions where one that moves
  control is followed by another; a block is basic when it has none. A
  block takes over others only when its last instruction moves no control,
  so the places of two parts make up those of the whole
  (`overruns_append`), and nothing is to be said of the seam.
* `Composed p g g'` is what every join keeps: each block of `g'` is put
  together of blocks of `g`, itself first, with their places and no other,
  and the blocks that are present have the places of those that were, up to
  their order. `Composed.absorb` is the step; one block of the list is
  taken out and its part added to another, which is a fact about lists by
  itself (`perm_flatMap_filter`). `Composed.mergeStraightLines` is the run.
* `Settled` puts the other half with it, from the module of the passes: the
  run is a sequence of joins, one for each block that is absorbed, in at
  most as many passes and one more, and another run makes none.

In the graph of a trace every block holds one instruction (`Single`), so it
has no places to begin with, and `BasicBlocks.composed` and
`BasicBlocks.partition` carry that through the stages.
`straight_lines_settle` states the three parts together, for all graphs,
for those that operations make, and for those of traces.
-/
import TraceFlow.Proofs.Graph.Assembled
import TraceFlow.Proofs.Graph.Claimed
import TraceFlow.Proofs.Graph.Settling
import TraceFlow.Proofs.Graph.StraightLines
import TraceFlow.Proofs.Profile
import TraceFlow.Proofs.Recorder.Arrival

namespace TraceFlow

/-! ## Places where control would leave -/

/-- The places of a run of instructions where one that moves control is followed by another. -/
def overruns (p : Profile) (is : List Instruction) : List (Instruction × Instruction) :=
  (is.zip is.tail).filter fun e => (p.classify e.1.opcode).isSome

/-- A place is counted at the first of two instructions. -/
theorem overruns_cons_cons (p : Profile) (i j : Instruction) (is : List Instruction) :
    overruns p (i :: j :: is) =
      if (p.classify i.opcode).isSome then (i, j) :: overruns p (j :: is)
      else overruns p (j :: is) :=
  List.filter_cons

@[simp] theorem overruns_singleton (p : Profile) (i : Instruction) : overruns p [i] = [] := rfl

/-- Two runs make no new place when the first does not end in an instruction that moves control. -/
theorem overruns_append {p : Profile} {js : List Instruction} :
    ∀ {is : List Instruction}, (∀ i ∈ is.getLast?, p.classify i.opcode = none) →
      overruns p (is ++ js) = overruns p is ++ overruns p js
  | [], _ => rfl
  | [i], hlast => by
    have hplain := hlast i rfl
    cases js with
    | nil => rfl
    | cons j js =>
      rw [List.singleton_append, overruns_cons_cons, hplain]
      rfl
  | i :: i' :: is, hlast => by
    have hrest : overruns p (i' :: is ++ js) = overruns p (i' :: is) ++ overruns p js :=
      overruns_append (by simpa using hlast)
    rw [List.cons_append, List.cons_append, overruns_cons_cons, overruns_cons_cons,
      ← List.cons_append, hrest]
    split <;> rfl

/-- A run has no such place when all instructions but the last move no control. -/
theorem overruns_eq_nil_iff {p : Profile} :
    ∀ {is : List Instruction},
      overruns p is = [] ↔ ∀ i ∈ is.dropLast, p.classify i.opcode = none
  | [] => by simp [overruns]
  | [i] => by simp
  | i :: j :: is => by
    have hrest : overruns p (j :: is) = [] ↔ _ := overruns_eq_nil_iff
    rw [overruns_cons_cons, List.dropLast_cons_cons, List.forall_mem_cons, ← hrest]
    cases p.classify i.opcode <;> simp

namespace Graph

variable {g g' : Graph} {p : Profile} {b x id next : BlockId}

/-- The places of a block where an instruction that moves control is followed by another. -/
def overrunsOf (p : Profile) (g : Graph) (id : BlockId) : List (Instruction × Instruction) :=
  overruns p (g.block id).instructions.toList

/-- The blocks that were not absorbed. -/
def present (g : Graph) : List BlockId := g.ids.filter fun id => (g.block id).mergedInto.isNone

/-! ## One join -/

namespace MergeCandidate

variable (h : g.MergeCandidate p id next)

include h

/-- A candidate is a block of the graph, whatever its edges are. -/
theorem target_lt_size : next < g.size := by
  have hunmerged := unmerged_of_mergeCandidate? (mergeCandidate?_eq_some_iff.2 h)
  obtain ⟨hlt, -⟩ := List.getElem?_eq_some_iff.1 hunmerged
  simpa [absorbers, size] using hlt

/-- Only the block that absorbs another gets instructions: those of the other, after its own. -/
theorem toList_absorb (hx : x < g.size) :
    ((g.absorb id next).block x).instructions.toList =
      if x = id then (g.block id).instructions.toList ++ (g.block next).instructions.toList
      else (g.block x).instructions.toList := by
  rw [instructions_absorb_eq h.unequal.symm hx]
  split
  · rename_i hxid
    rw [Array.toList_append, hxid]
  · rfl

/-- A join puts the places of the two blocks one after the other. -/
theorem overrunsOf_absorb (hx : x < g.size) :
    overrunsOf p (g.absorb id next) x =
      if x = id then overrunsOf p g id ++ overrunsOf p g next else overrunsOf p g x := by
  have hplain : ∀ i ∈ (g.block id).instructions.toList.getLast?, p.classify i.opcode = none := by
    intro i hi
    have hlast := h.plain
    rw [Block.lastOpcode, ← Array.getLast?_toList, hi] at hlast
    exact hlast
  unfold overrunsOf
  rw [h.toList_absorb hx]
  split
  · exact overruns_append hplain
  · rfl

/-- After a join one block less is present. -/
theorem present_absorb : (g.absorb id next).present = g.present.filter (· ≠ next) := by
  have hmerged := mergedInto_absorb h.unequal.symm h.target_lt_size
  unfold present ids
  rw [size_absorb, List.filter_filter]
  refine List.filter_congr fun x _ => ?_
  rw [hmerged]
  by_cases hx : x = next <;> simp [hx]

end MergeCandidate

/-- What two members of a list hold is together in one when that one takes it over. -/
theorem perm_flatMap_filter {α β : Type} [DecidableEq α] {l : List α} {into other : α}
    {f f' : α → List β} (hl : l.Nodup) (hinto : into ∈ l) (hother : other ∈ l)
    (hne : other ≠ into) (htaken : f' into = f into ++ f other)
    (hkept : ∀ x ∈ l, x ≠ into → f' x = f x) :
    ((l.filter (· ≠ other)).flatMap f').Perm (l.flatMap f) := by
  obtain ⟨rest, hperm⟩ : ∃ rest, l.Perm (into :: other :: rest) := by
    have hfirst := List.perm_cons_erase hinto
    have hsecond := List.perm_cons_erase ((List.mem_erase_of_ne hne).2 hother)
    exact ⟨_, hfirst.trans (hsecond.cons into)⟩
  have hnodup := hperm.nodup_iff.1 hl
  have hmem : ∀ {x}, x ∈ rest → x ∈ l := fun hx =>
    hperm.mem_iff.2 (List.mem_cons_of_mem _ (List.mem_cons_of_mem _ hx))
  obtain ⟨hinto', hnodup⟩ := List.nodup_cons.1 hnodup
  have hother' := (List.nodup_cons.1 hnodup).1
  have hstay : (into :: other :: rest).filter (· ≠ other) = into :: rest := by
    rw [List.filter_cons_of_pos (by simpa using hne.symm), List.filter_cons_of_neg (by simp)]
    refine congrArg _ (List.filter_eq_self.2 fun x hx => decide_eq_true ?_)
    rintro rfl
    exact hother' hx
  have hrest : rest.flatMap f' = rest.flatMap f := by
    refine List.flatMap_congr fun x hx => hkept x (hmem hx) fun heq => ?_
    exact hinto' (List.mem_cons_of_mem _ (heq ▸ hx))
  refine ((hperm.filter _).flatMap_right f').trans (.trans (.of_eq ?_)
    (hperm.flatMap_right f).symm)
  rw [hstay, List.flatMap_cons, List.flatMap_cons, List.flatMap_cons, hrest, htaken,
    List.append_assoc]

/-! ## All joins -/

/-- How the blocks of `g'` are put together of those of `g`: every block of itself and others, one
after another, with their places where control would leave and no other. -/
structure Composed (p : Profile) (g g' : Graph) : Prop where
  size : g'.size = g.size
  pieces : ∀ {b}, b < g.size → ∃ rest,
    (g'.block b).instructions.toList =
      (b :: rest).flatMap (fun x => (g.block x).instructions.toList) ∧
    overrunsOf p g' b = (b :: rest).flatMap (overrunsOf p g)
  overruns : (g'.present.flatMap (overrunsOf p g')).Perm (g.present.flatMap (overrunsOf p g))
  proper : ∀ id, (g'.block id).mergedInto = some id → (g.block id).mergedInto = some id

namespace Composed

/-- A graph is made up of its own blocks. -/
theorem refl (p : Profile) (g : Graph) : Composed p g g :=
  ⟨rfl, fun _ => ⟨[], by simp, by simp⟩, .refl _, fun _ h => h⟩

/-- The step: a join makes one block of two. -/
theorem absorb (h : Composed p g g') (hc : g'.MergeCandidate p id next) :
    Composed p g (g'.absorb id next) := by
  have hid := hc.lt_size
  have hnext := hc.target_lt_size
  have htoList := fun {x} => hc.toList_absorb (x := x)
  have hplaces := fun {x} => hc.overrunsOf_absorb (x := x)
  have hmerged := mergedInto_absorb hc.unequal.symm hnext
  have hpresent : ∀ {x}, x < g'.size → (g'.block x).mergedInto = none → x ∈ g'.present := by
    intro x hx hnone
    exact List.mem_filter.2 ⟨List.mem_range.2 hx, by rw [hnone]; rfl⟩
  refine ⟨size_absorb.trans h.size, fun {b} hb => ?_, ?_, fun x hx => ?_⟩
  · have hb' : b < g'.size := h.size ▸ hb
    obtain ⟨rest, hinstructions, hoverruns⟩ := h.pieces hb
    rw [htoList hb', hplaces hb']
    by_cases hbid : b = id
    · -- the pieces of the two blocks, one after another
      subst hbid
      obtain ⟨tail, htail, hover⟩ := h.pieces (h.size ▸ hnext)
      refine ⟨rest ++ next :: tail, ?_, ?_⟩
      · rw [if_pos rfl, hinstructions, htail, ← List.cons_append, List.flatMap_append]
      · rw [if_pos rfl, hoverruns, hover, ← List.cons_append, List.flatMap_append]
    · rw [if_neg hbid, if_neg hbid]
      exact ⟨rest, hinstructions, hoverruns⟩
  · rw [hc.present_absorb]
    refine (perm_flatMap_filter (List.nodup_range.filter _) (hpresent hid hc.unmerged)
      (hpresent hnext hc.nextUnmerged) hc.unequal ?_ fun x hx hxid => ?_).trans h.overruns
    · rw [hplaces hid, if_pos rfl]
    · rw [hplaces (List.mem_range.1 (List.mem_filter.1 hx).1), if_neg hxid]
  · rw [hmerged] at hx
    split at hx
    · rename_i hxn
      exact absurd ((Option.some.inj hx).trans hxn).symm hc.unequal
    · exact h.proper x hx

/-- The run, by induction on its joins. -/
theorem mergeStraightLines (p : Profile) (g : Graph) :
    Composed p g (g.mergeStraightLines p).graph :=
  mergeStraightLines_induct p (.refl p g) fun _ _ _ hc h => h.absorb hc

end Composed

/-- A graph `m.graph` whose straight lines are all joined, made of `g` by `m.count` joins. -/
structure Settled (p : Profile) (g : Graph) (m : Merged) : Prop where
  joins : Relation.ReflTransGen (Joins p) ⟨g, 0⟩ m
  balance : m.graph.unmerged + m.count = g.unmerged
  passes : ∃ n, n ≤ m.count ∧ m = (mergePass p)^[n + 1] ⟨g, 0⟩
  quiet : Quiet p m.graph
  again : m.graph.mergeStraightLines p = ⟨m.graph, 0⟩
  composed : Composed p g m.graph

/-- Every graph settles when its straight lines are joined. -/
theorem settled_mergeStraightLines (p : Profile) (g : Graph) :
    Settled p g (g.mergeStraightLines p) where
  joins := mergePasses_joins p ⟨g, 0⟩
  balance := mergePasses_balance p ⟨g, 0⟩
  passes := by
    obtain ⟨n, hle, heq⟩ := mergePasses_iterate p ⟨g, 0⟩
    exact ⟨n, Nat.zero_add n ▸ hle, heq⟩
  quiet := mergePasses_quiet p ⟨g, 0⟩
  again := mergePasses_of_quiet (mergePasses_quiet p ⟨g, 0⟩)
  composed := .mergeStraightLines p g

/-! ## The graphs of traces -/

/-- Only the last instruction of a block may move control, and no block was absorbed into
itself. -/
structure BasicBlocks (p : Profile) (g : Graph) : Prop where
  ends : ∀ id, ∀ i ∈ (g.block id).instructions.toList.dropLast,
    ∀ flow, (p.opcodeClass flow).contains i.opcode = false
  proper : ∀ id, (g.block id).mergedInto ≠ some id

/-- A graph has basic blocks exactly when no block has such a place. -/
theorem basicBlocks_iff : BasicBlocks p g ↔
    (∀ id, overrunsOf p g id = []) ∧ ∀ id, (g.block id).mergedInto ≠ some id := by
  simp only [overrunsOf, overruns_eq_nil_iff, Profile.Regular.classify_eq_none_iff]
  exact ⟨fun h => ⟨h.ends, h.proper⟩, fun h => ⟨h.1, h.2⟩⟩

/-- Basic blocks make up basic blocks. -/
theorem BasicBlocks.composed (h : BasicBlocks p g) (hc : Composed p g g') : BasicBlocks p g' := by
  obtain ⟨hnone, hproper⟩ := basicBlocks_iff.1 h
  refine basicBlocks_iff.2 ⟨fun id => ?_, fun id hid => hproper id (hc.proper id hid)⟩
  rcases Nat.lt_or_ge id g.size with hlt | hge
  · obtain ⟨rest, -, hplaces⟩ := hc.pieces hlt
    rw [hplaces]
    exact List.flatMap_eq_nil_iff.2 fun x _ => hnone x
  · rw [overrunsOf, block_of_size_le (hc.size ▸ hge)]
    rfl

/-- Dividing a graph into functions leaves instructions and absorbers as they are. -/
theorem BasicBlocks.partition (h : BasicBlocks p g) (entries : List BlockId) :
    BasicBlocks p (g.partition entries).1 := by
  refine partition_induct (P := BasicBlocks p) entries h fun g entry h => ?_
  have hblock := fun id => block_claimAll (g.name entry) (g.closure entry) g id
  rw [cut_eq]
  generalize (g.closure entry).foldl (claim (g.name entry)) g = cut at hblock
  have hkept : ∀ id, (cut.block id).instructions = (g.block id).instructions ∧
      (cut.block id).mergedInto = (g.block id).mergedInto := by
    intro id
    rw [hblock]
    split
    · exact ⟨rfl, rfl⟩
    · exact ⟨rfl, rfl⟩
  refine ⟨fun id => ?_, fun id => ?_⟩
  · rw [(hkept id).1]
    exact h.ends id
  · rw [(hkept id).2]
    exact h.proper id

def Single (g : Graph) : Prop := ∀ id, id < g.size → ∃ i, (g.block id).instructions = #[i]

/-- Adding a block of one instruction and changing edges keeps blocks to one instruction. -/
theorem Single.extended (h : Single g) {new : Block} (hnew : ∃ i, new.instructions = #[i])
    (hsize : g'.size = g.size + 1)
    (hbody : ∀ id, (g'.block id).body = if id = g.size then new.body else (g.block id).body) :
    Single g' := by
  intro id hid
  have hinstructions := congrArg Block.instructions (hbody id)
  split at hinstructions
  · obtain ⟨i, hi⟩ := hnew
    exact ⟨i, hinstructions.trans hi⟩
  · rename_i hne
    rw [hsize] at hid
    obtain ⟨i, hi⟩ := h id ((Nat.lt_succ_iff_lt_or_eq.1 hid).resolve_right hne)
    exact ⟨i, hinstructions.trans hi⟩

theorem Single.divertCall (h : Single g) (entry : BlockId) (call : Link) :
    Single (divertCall entry g call) := by
  have hmarker : ∃ i, (g.callMarker entry).instructions = #[i] := ⟨_, rfl⟩
  exact h.extended hmarker (size_divertCall entry g call) (body_divertCall entry g call)

/-- A marker holds one instruction as well. -/
theorem Single.splitCallSites (h : Single g) (start : BlockId) :
    Single (g.splitCallSites start).1 :=
  splitCallSites_induct start h fun _ _ entry call _ _ _ _ h => h.divertCall entry call

/-- One instruction alone is followed by none. -/
theorem Single.overrunsOf_eq_nil (h : Single g) (id : BlockId) : overrunsOf p g id = [] := by
  unfold overrunsOf
  rcases Nat.lt_or_ge id g.size with hlt | hge
  · obtain ⟨i, hi⟩ := h id hlt
    rw [hi]
    rfl
  · rw [block_of_size_le hge]
    rfl

end Graph

namespace Recorder.Sound

open TraceFlow.Graph

variable {s : Setup} {r : Recorder}

/-- The block after the trace holds one instruction, as all others do. -/
theorem single_finish (h : Sound s r) : Single (r.finish s.profile).graph := by
  have hsingle : Single r.graph := fun id hid => h.exists_instruction hid
  have hend : ∃ i, (endMarker s.profile).instructions = #[i] := ⟨_, rfl⟩
  refine hsingle.extended hend (size_finish s.profile r) fun id => ?_
  rw [body_finish, apply_ite Block.body]

end Recorder.Sound

namespace Extraction

open TraceFlow.Graph

variable {s : Setup} {r : Recorder}

/-- The graph has basic blocks before straight lines are joined, after that, and divided into
functions. -/
structure Basic (p : Profile) (e : Extraction) : Prop where
  split : BasicBlocks p e.split
  merged : BasicBlocks p e.merged.graph
  divided : BasicBlocks p e.graph

/-- The graph of a trace has basic blocks at every stage. -/
theorem basic_of_sound (h : Recorder.Sound s r) :
    Basic s.profile ((r.finish s.profile).extraction s.profile) := by
  have hsingle := h.single_finish.splitCallSites r.start
  have hsplit : BasicBlocks s.profile ((r.finish s.profile).graph.splitCallSites r.start).1 := by
    refine basicBlocks_iff.2 ⟨hsingle.overrunsOf_eq_nil, fun id => ?_⟩
    rw [h.raw_finish.unmerged_split]
    exact fun hid => nomatch hid
  have hmerged := hsplit.composed (.mergeStraightLines s.profile _)
  exact ⟨hsplit, hmerged, hmerged.partition ((r.finish s.profile).graph.splitCallSites r.start).2⟩

/-- **Joining straight lines reaches a fixpoint and makes basic blocks**, whatever the edges are:
the run is a sequence of joins, one for each block that it absorbs, in at most as many passes and
one more; no block that the index lists has a candidate afterwards; another run makes no join and
changes nothing; and an instruction that moves control is followed by another of its block only
where it was before. In the graph of a trace it always is the last of its block. -/
theorem straight_lines_settle :
    (∀ p g, Settled p g (g.mergeStraightLines p)) ∧
      (∀ p g, Assembled g → ∀ id ∈ (g.mergeStraightLines p).graph.indexed,
        (g.mergeStraightLines p).graph.mergeCandidate? p id = none) ∧
      ∀ s,
        (∀ r, Recorder.Reached s r →
          Basic s.profile ((r.finish s.profile).extraction s.profile)) ∧
        ∀ bytes, Basic s.profile ((Recording.ofTrace s bytes).extraction s.profile) := by
  refine ⟨settled_mergeStraightLines, fun p g h id hid => ?_, fun s => ⟨fun r h => ?_, fun _ => ?_⟩⟩
  · have hindexed := (h.mergeStraightLines p).isIndexed_iff.2 hid
    exact (settled_mergeStraightLines p g).quiet id hindexed
  · exact basic_of_sound h.sound
  · exact basic_of_sound (Recorder.Reached.new.feedLines _).sound

/-- Three blocks in a circle, the last of which jumps, and a fourth that leads to itself: the first
block absorbs the other two and leads to itself from then on. A trace that enters such a circle at
its first block makes two blocks of it, as the second one is also where the jump leads. -/
theorem straight_lines_settle_circle :
    let first : Instruction := { pc := 0x100, opcode := [0x00] }
    let second : Instruction := { pc := 0x101, opcode := [0x00] }
    let jump : Instruction := { pc := 0x102, opcode := [0x18] }
    let alone : Instruction := { pc := 0x200, opcode := [0x00] }
    let placed := ((((Graph.new 4).place first).1.place second).1.place jump).1.place alone
    let g := (((placed.1.link 0 1 none 1).link 1 2 none 1).link 2 0 (some .taken) 1).link 3 3 none 1
    let m := g.mergeStraightLines .gameBoy
    let s : Setup := { profile := .gameBoy }
    let r := (Recorder.new .gameBoy).feedAll s
      [.instruction first, .instruction second, .instruction jump, .instruction second,
        .instruction jump]
    let e := (r.finish s.profile).extraction s.profile
    Assembled g ∧ Settled .gameBoy g m ∧
      (∀ id ∈ m.graph.indexed, m.graph.mergeCandidate? .gameBoy id = none) ∧
      Recorder.Reached s r ∧ Basic .gameBoy e ∧ m.count = 2 ∧ m.graph.indexed = [0, 3] ∧
      m.graph.edge? 0 0 = some ⟨.taken, 1⟩ ∧ e.merged.count = 1 := by
  intro first second jump alone placed g m s r e
  have hg : Assembled g :=
    ((((((((Assembled.new 4).place first).place second).place jump).place alone).link 0 1 none
      1).link 1 2 none 1).link 2 0 (some .taken) 1).link 3 3 none 1
  have hr : Recorder.Reached s r := Recorder.Reached.new.feedAll _
  exact ⟨hg, straight_lines_settle.1 _ g, straight_lines_settle.2.1 _ g hg, hr,
    (straight_lines_settle.2.2 s).1 r hr, by decide +kernel, by decide +kernel, by decide +kernel,
    by decide +kernel⟩

end Extraction

end TraceFlow
