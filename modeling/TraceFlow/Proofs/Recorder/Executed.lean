/-
TraceFlow.Proofs.Recorder.Executed — the blocks of a raw graph are what was
executed.

The trace says which blocks there must be, without the recorder: of all
instructions that stand in the address space (`executed`), the first one of
each address and opcode (`firstSeen`). Operands do not tell blocks apart,
so the block shows those of the first time.

`Listed s is r` is the invariant of a run that executed `is`: the list of
blocks, in the order of their numbers, is the block before the trace and
then one for each instruction of `firstSeen is`. It is an equation of two
lists, and not a bijection, because order and absence of others come with
it. An instruction extends `firstSeen` at its end or not at all
(`firstSeen_concat`), and a step creates a block or not, so
`Listed.record` has two cases; `Listed.isSome_find?_iff` says that they are
the same two. `Listed.feedAll` is the induction over the records.

Blocks are compared by `Block.fixed`, as ordinals and kinds still change
while the trace goes on. They are settled at its end: `Identified` adds the
ordinals, by address and in order of creation, and that names tell blocks
apart. The names come from the catalogue that every sound graph has, and
`blocks_identified` carries them to the map of functions, where the names
of two successors of one block differ.
-/
import TraceFlow.Proofs.Comparison

namespace TraceFlow

/-! ## First occurrences -/

namespace Instruction

/-- The same address and opcode, whatever the operands. -/
def SamePlace (a b : Instruction) : Prop := a.pc = b.pc ∧ a.opcode = b.opcode

instance (a b : Instruction) : Decidable (a.SamePlace b) := inferInstanceAs (Decidable (_ ∧ _))

/-- To have the same place is transitive, and symmetric as well. -/
theorem SamePlace.trans {a b c : Instruction} (h : a.SamePlace b) (k : b.SamePlace c) :
    a.SamePlace c :=
  ⟨h.1.trans k.1, h.2.trans k.2⟩

end Instruction

/-- The first instruction of each address and opcode, in order. -/
def firstSeen : List Instruction → List Instruction
  | [] => []
  | i :: is => i :: (firstSeen is).filter fun j => ¬i.SamePlace j

/-- Every instruction has the place of one that was the first there. -/
theorem exists_firstSeen {i : Instruction} {is : List Instruction} (hi : i ∈ is) :
    ∃ j ∈ firstSeen is, j.SamePlace i := by
  induction is with
  | nil => cases hi
  | cons k is ih =>
    by_cases hk : k.SamePlace i
    · exact ⟨k, List.mem_cons_self, hk⟩
    · obtain ⟨j, hj, hji⟩ := ih ((List.mem_cons.1 hi).resolve_left fun heq => hk (heq ▸ ⟨rfl, rfl⟩))
      refine ⟨j, List.mem_cons_of_mem _ (List.mem_filter.2 ⟨hj, ?_⟩), hji⟩
      simpa using fun hkj => hk (Instruction.SamePlace.trans hkj hji)

/-- One more instruction is a first one unless one of its address and opcode came before. -/
theorem firstSeen_concat (is : List Instruction) (i : Instruction) :
    firstSeen (is ++ [i]) =
      if ∃ j ∈ firstSeen is, j.SamePlace i then firstSeen is else firstSeen is ++ [i] := by
  induction is with
  | nil => simp [firstSeen]
  | cons k is ih =>
    rw [List.cons_append, firstSeen, ih, firstSeen]
    by_cases hk : k.SamePlace i
    · have hseen : ∃ j ∈ k :: (firstSeen is).filter (fun j => ¬k.SamePlace j), j.SamePlace i :=
        ⟨k, List.mem_cons_self, hk⟩
      rw [if_pos hseen]
      split
      · rfl
      · simp [hk]
    · by_cases hseen : ∃ j ∈ firstSeen is, j.SamePlace i
      · obtain ⟨j, hj, hji⟩ := hseen
        have hkj : ¬k.SamePlace j := fun h => hk (h.trans hji)
        rw [if_pos ⟨j, hj, hji⟩, if_pos ⟨j, List.mem_cons_of_mem _ (by simp [hj, hkj]), hji⟩]
      · have hnew : ¬∃ j ∈ k :: (firstSeen is).filter (fun j => ¬k.SamePlace j), j.SamePlace i := by
          rintro ⟨j, hj, hji⟩
          rcases List.mem_cons.1 hj with rfl | hj
          · exact hk hji
          · exact hseen ⟨j, (List.mem_filter.1 hj).1, hji⟩
        rw [if_neg hseen, if_neg hnew]
        simp [hk]

/-! ## A run and its blocks -/

/-- The instructions of a run that stand in the address space. -/
def executed (p : Profile) (recs : List TraceRecord) : List Instruction :=
  recs.filterMap fun
    | .instruction inst => if p.beginAddress ≤ inst.pc then none else some inst
    | .interrupt _ => none

/-- The first record is executed first. -/
theorem executed_cons (p : Profile) (rec : TraceRecord) (recs : List TraceRecord) :
    executed p (rec :: recs) = executed p [rec] ++ executed p recs :=
  List.filterMap_append (l := [rec])

namespace Recorder

open TraceFlow.Graph

variable {s : Setup} {r : Recorder} {is : List Instruction} {i inst : Instruction} {id : BlockId}

def codeBlock (s : Setup) (inst : Instruction) : Block := .ofInstruction (s.labelled inst)

/-- The block of an instruction has its address and its opcode, whatever its label. -/
theorem pc_codeBlock (s : Setup) (inst : Instruction) : (codeBlock s inst).pc = inst.pc :=
  pc_labelled

theorem opcode_codeBlock (s : Setup) (inst : Instruction) :
    (codeBlock s inst).opcode = inst.opcode :=
  opcode_labelled

def startMarker (p : Profile) : Block := .marker p.beginAddress "BEGIN" false

/-- A state that a run has led to: besides the block before the trace there is one for each
instruction of `is` that was the first of its address and opcode. -/
structure Listed (s : Setup) (is : List Instruction) (r : Recorder) : Prop where
  sound : Sound s r
  start : r.start = 0
  blocks : (r.graph.ids.map fun id => (r.graph.block id).fixed) =
    (startMarker s.profile).fixed :: (firstSeen is).map fun i => (codeBlock s i).fixed

namespace Listed

/-- Before the first record there is the block before the trace, and no other. -/
theorem new (s : Setup) : Listed s [] (.new s.profile) := ⟨.new s, rfl, rfl⟩

/-- An instruction has its block already exactly when one of its address and opcode came before. -/
theorem isSome_find?_iff (h : Listed s is r) (hinst : inst.pc < s.profile.beginAddress) :
    (r.graph.find? (s.labelled inst)).isSome ↔ ∃ j ∈ firstSeen is, j.SamePlace inst := by
  constructor
  · intro hsome
    obtain ⟨id, hfind⟩ := Option.isSome_iff_exists.1 hsome
    obtain ⟨hlt, hpc, hopcode⟩ := h.sound.catalogued.find?_eq_some_iff.1 hfind
    rw [pc_labelled] at hpc
    rw [opcode_labelled] at hopcode
    have hmem := List.mem_map_of_mem (f := fun id => (r.graph.block id).fixed)
      (List.mem_range.2 hlt)
    rw [← ids, h.blocks] at hmem
    rcases List.mem_cons.1 hmem with heq | hmem
    · have hbegin : inst.pc = s.profile.beginAddress := hpc.symm.trans (Block.pc_of_fixed heq)
      exact absurd hbegin (Nat.ne_of_lt hinst)
    · obtain ⟨j, hj, heq⟩ := List.mem_map.1 hmem
      refine ⟨j, hj, ?_, ?_⟩
      · rw [← pc_codeBlock s j, Block.pc_of_fixed heq, hpc]
      · rw [← opcode_codeBlock s j, Block.opcode_of_fixed heq, hopcode]
  · rintro ⟨j, hj, hpc, hopcode⟩
    have hmem := List.mem_cons_of_mem (startMarker s.profile).fixed
      (List.mem_map_of_mem (f := fun i => (codeBlock s i).fixed) hj)
    rw [← h.blocks] at hmem
    obtain ⟨id, hid, heq⟩ := List.mem_map.1 hmem
    have hfind : r.graph.find? (s.labelled inst) = some id := by
      refine h.sound.catalogued.find?_eq_some_iff.2 ⟨List.mem_range.1 hid, ?_, ?_⟩
      · rw [pc_labelled, Block.pc_of_fixed heq, pc_codeBlock, hpc]
      · rw [opcode_labelled, Block.opcode_of_fixed heq, opcode_codeBlock, hopcode]
    rw [hfind]
    rfl

/-- The step of the induction: an instruction of a new place is listed last. -/
theorem record (h : Listed s is r) (hinst : inst.pc < s.profile.beginAddress) :
    Listed s (is ++ [inst]) (r.record s inst) := by
  refine ⟨h.sound.record hinst, by rw [start_record, h.start], ?_⟩
  have hseen := h.isSome_find?_iff hinst
  have hold : (r.graph.ids.map fun id => ((r.record s inst).graph.block id).fixed) =
      (startMarker s.profile).fixed :: (firstSeen is).map fun i => (codeBlock s i).fixed := by
    rw [← h.blocks]
    exact List.map_congr_left fun id hid => h.sound.fixed_record inst (List.mem_range.1 hid)
  rw [firstSeen_concat]
  cases hfind : r.graph.find? (s.labelled inst) with
  | some id =>
    rw [if_pos (hseen.1 (by rw [hfind]; rfl)), ids, Sound.size_record, place_of_find?_some hfind]
    exact hold
  | none =>
    have hplace := place_of_find?_none hfind
    obtain ⟨ordinal, hblock⟩ := h.sound.catalogued.block_place_new (congrArg Prod.snd hplace)
    have hnew : ((r.record s inst).graph.block r.graph.size).fixed = (codeBlock s inst).fixed :=
      ((Sound.drawn_record s r inst).fixed _).trans (congrArg Block.fixed hblock :)
    rw [if_neg fun hsome => by simpa [hfind] using hseen.2 hsome, ids, Sound.size_record, hplace,
      size_enter, List.range_succ, List.map_append, ← ids, hold, List.map_append]
    simp [hnew]

/-- A record that is no instruction lists nothing. -/
theorem feed (h : Listed s is r) (rec : TraceRecord) :
    Listed s (is ++ executed s.profile [rec]) (r.feed s rec) := by
  cases rec with
  | interrupt id =>
    rw [show executed s.profile [.interrupt id] = [] from rfl, List.append_nil]
    exact ⟨h.sound.feed _, h.start, h.blocks⟩
  | instruction inst =>
    have hsound := h.sound.feed (.instruction inst)
    rw [feed_instruction] at hsound ⊢
    by_cases hinst : s.profile.beginAddress ≤ inst.pc
    · rw [if_pos hinst] at hsound ⊢
      simp only [executed, List.filterMap_cons, hinst, if_true, List.filterMap_nil,
        List.append_nil]
      exact ⟨hsound, h.start, h.blocks⟩
    · rw [if_neg hinst]
      simp only [executed, List.filterMap_cons, hinst, if_false, List.filterMap_nil]
      exact h.record (Nat.lt_of_not_le hinst)

/-- The run, by induction on its records. -/
theorem feedAll (h : Listed s is r) (recs : List TraceRecord) :
    Listed s (is ++ executed s.profile recs) (r.feedAll s recs) := by
  induction recs generalizing is r with
  | nil => simpa [executed] using h
  | cons rec recs ih =>
    rw [executed_cons, ← List.append_assoc]
    exact ih (h.feed rec)

end Listed

/-! ## The blocks of a finished run -/

/-- The blocks of a raw graph stand for what was executed: there is one for each address and opcode,
in order and as first seen, between those before and after the trace. -/
structure Identified (s : Setup) (recs : List TraceRecord) (raw : Recording) : Prop where
  blocks : (raw.graph.ids.map fun id => (raw.graph.block id).fixed) =
    (startMarker s.profile).fixed ::
      ((firstSeen (executed s.profile recs)).map fun i => (codeBlock s i).fixed) ++
        [(Sound.endMarker s.profile).fixed]
  ends : raw.start = 0 ∧ raw.finish + 1 = raw.graph.size
  unique : ∀ i ∈ executed s.profile recs, ∃! id, id < raw.graph.size ∧
    (raw.graph.block id).pc = i.pc ∧ (raw.graph.block id).opcode = i.opcode
  alone : ∀ {a b}, a < raw.graph.size → b < raw.graph.size → a = raw.start ∨ a = raw.finish →
    (raw.graph.block b).pc = (raw.graph.block a).pc → b = a
  names : ∀ {a b}, a < raw.graph.size → b < raw.graph.size →
    raw.graph.name a = raw.graph.name b → a = b
  ordinal : ∀ {id}, id < raw.graph.size → (raw.graph.block id).ordinal =
    ordinalIn (raw.graph.ids.filter fun b => (raw.graph.block b).pc = (raw.graph.block id).pc) id

/-- The blocks around the trace stand past the address space, all others in it. -/
theorem Sound.pc_lt (h : Sound s r) (hid : id < r.graph.size) (hne : id ≠ r.start) :
    (r.graph.block id).pc < s.profile.beginAddress := by
  obtain ⟨inst, hlt, hfixed⟩ := h.code hid hne
  exact Block.pc_of_fixed hfixed ▸ hlt

/-- An instruction that was executed has one block. -/
theorem existsUnique_of_blocks {recs : List TraceRecord} {g : Graph} (h : Catalogued g)
    (hblocks : (g.ids.map fun id => (g.block id).fixed) =
      (startMarker s.profile).fixed ::
        ((firstSeen (executed s.profile recs)).map fun i => (codeBlock s i).fixed) ++
          [(Sound.endMarker s.profile).fixed]) :
    ∀ i ∈ executed s.profile recs, ∃! id, id < g.size ∧
      (g.block id).pc = i.pc ∧ (g.block id).opcode = i.opcode := by
  intro i hi
  obtain ⟨j, hj, hpc, hopcode⟩ := exists_firstSeen hi
  have hmem : (codeBlock s j).fixed ∈ g.ids.map fun id => (g.block id).fixed := by
    rw [hblocks]
    exact List.mem_append_left _ (List.mem_cons_of_mem _ (List.mem_map_of_mem hj))
  obtain ⟨id, hid, heq⟩ := List.mem_map.1 hmem
  have hidpc := (Block.pc_of_fixed heq).trans ((pc_codeBlock s j).trans hpc)
  have hidopcode := (Block.opcode_of_fixed heq).trans ((opcode_codeBlock s j).trans hopcode)
  refine ⟨id, ⟨List.mem_range.1 hid, hidpc, hidopcode⟩, ?_⟩
  rintro other ⟨hlt, hotherpc, hotheropcode⟩
  exact h.distinct hlt (List.mem_range.1 hid) (hotherpc.trans hidpc.symm)
    (hotheropcode.trans hidopcode.symm)

/-- A list of blocks tells them apart once the trace is closed. -/
theorem identified_finish {recs : List TraceRecord} (h : Listed s (executed s.profile recs) r) :
    Identified s recs (r.finish s.profile) := by
  have hcatalogued := h.sound.raw_finish.catalogued
  have hbody := Sound.body_finish s.profile r
  have hsize := Sound.size_finish s.profile r
  have hblocks : ((r.finish s.profile).graph.ids.map fun id =>
      ((r.finish s.profile).graph.block id).fixed) =
      (startMarker s.profile).fixed ::
        ((firstSeen (executed s.profile recs)).map fun i => (codeBlock s i).fixed) ++
          [(Sound.endMarker s.profile).fixed] := by
    have hfixed : ∀ id, ((r.finish s.profile).graph.block id).fixed =
        (if id = r.graph.size then Sound.endMarker s.profile else r.graph.block id).fixed :=
      fun id => Block.fixed_of_body (hbody id)
    rw [← h.blocks, ids, hsize, List.range_succ, List.map_append]
    refine congrArg₂ (· ++ ·) (List.map_congr_left fun id hid => ?_) ?_
    · rw [hfixed, if_neg (Nat.ne_of_lt (List.mem_range.1 hid))]
    · simp [hfixed]
  refine ⟨hblocks, ⟨h.start, hsize.symm⟩, existsUnique_of_blocks hcatalogued hblocks,
    fun {a b} ha hb hends hpc => ?_, fun ha hb => hcatalogued.name_inj ha hb, fun {id} hid => ?_⟩
  · by_contra hne
    have hlt : b ≠ r.graph.size → b < r.graph.size := by
      rw [hsize] at hb
      exact (Nat.lt_succ_iff_lt_or_eq.1 hb).resolve_right
    have hends : a = r.start ∨ a = r.graph.size := hends
    rw [Sound.pc_finish, Sound.pc_finish] at hpc
    rcases hends with rfl | rfl
    · rw [if_neg (Nat.ne_of_lt h.sound.start_lt), h.sound.pc_start] at hpc
      split at hpc
      · exact absurd hpc (Nat.succ_ne_self _)
      · exact absurd hpc (Nat.ne_of_lt (h.sound.pc_lt (hlt ‹_›) hne))
    · rw [if_pos rfl, if_neg hne] at hpc
      exact absurd hpc (Nat.ne_of_lt (Nat.lt_succ_of_le (h.sound.pc_le (hlt hne))))
  · rw [hcatalogued.ordinal hid, hcatalogued.listed]

/-- **The blocks of a raw graph are what was executed**, whatever the CPU and the records are: one
for each address and opcode, in order and with the operand first seen, between the block before the
trace and the one after it; no two have one name. In the map of functions no two successors of a
block have one name, so each is found when it is looked up by name. -/
theorem blocks_identified (s : Setup) (recs : List TraceRecord) :
    let raw := ((Recorder.new s.profile).feedAll s recs).finish s.profile
    let m := raw.functionMap s.profile
    Identified s recs raw ∧ Discerning m.graph ∧ ∀ a x, x ∈ m.graph.successors a →
      (m.graph.successorsByName a).get? (m.graph.name x) = some x := by
  have hlisted := (Listed.new s).feedAll recs
  have hdiscerning := (FunctionMap.navigable hlisted.sound).discerning
  exact ⟨identified_finish hlisted, hdiscerning, fun a x => hdiscerning.get?_successorsByName⟩

/-- Two opcodes at one address, of which the first comes again with another operand, and an
instruction past the address space. -/
theorem blocks_identified_siblings :
    let s : Setup := { profile := .gameBoy }
    let jump : Instruction := { pc := 0x100, opcode := [0x18], operand := [0xFE] }
    let plain : Instruction := { pc := 0x100, opcode := [0x00] }
    let recs := [.instruction jump, .instruction { pc := 0x10000, opcode := [0x00] },
      .instruction plain, .instruction { jump with operand := [0x10] }]
    let raw := ((Recorder.new s.profile).feedAll s recs).finish s.profile
    firstSeen (executed s.profile recs) = [jump, plain] ∧ Identified s recs raw ∧
      raw.graph.ids.map raw.graph.name = ["loc_10000S", "loc_0100_0", "loc_0100_1", "loc_10001S"] :=
  ⟨by decide +kernel, (blocks_identified _ _).1, by decide +kernel⟩

end Recorder

end TraceFlow
