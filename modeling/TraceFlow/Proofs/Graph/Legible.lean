/-
TraceFlow.Proofs.Graph.Legible — what a block shows stands on lines of its
own.

A listing is a line for each instruction, so a label with a line feed in it
would break the line, and a block without instructions would have no line.
`Legible` excludes both. It is what the readers of drawings and of plain
listings need of a graph in order to find the blocks again.

Where it comes from is the setup: `Setup.OneLine` says that the labels it
gives stand on one line, and the mnemonics of the CPU do
(`Cpu.oneLine_setup`). From there it is carried along in three parts.

* A block is legible by its instructions and its synthetic label alone
  (`Block.Legible.congr`), so an operation that keeps those keeps it.
* The passes move instructions, but make no labels except for those of call
  markers, and the name in such a label is one word. `extended` is the one
  lemma for a new block; a join needs its own (`Legible.absorb`), since it
  appends instructions.
* The recorder adds the block of an instruction at most
  (`Sound.legible_record`), so by induction over the states that are
  reached every graph of a trace is legible (`Reached.legible`).
-/
import TraceFlow.Proofs.FunctionMap.Entries
import TraceFlow.Proofs.Graph.BasicBlocks
import TraceFlow.Proofs.Mnemonic

namespace TraceFlow

/-- The labels that a setup gives stand on one line. -/
def Setup.OneLine (s : Setup) : Prop :=
  ∀ inst, ∀ label ∈ (s.labelled inst).label, '\n' ∉ label.toList

/-- Mnemonics hold no line feed. -/
theorem Cpu.oneLine_setup (cpu : Cpu) : cpu.setup.OneLine := by
  intro inst label hlabel
  obtain rfl : Mnemonic.label inst.opcode inst.operand = label := Option.some.inj hlabel
  exact Mnemonic.lineFeed_not_mem_label _ _

/-- A block shows something, and no label of it holds a line feed. -/
structure Block.Legible (b : Block) : Prop where
  nonempty : b.instructions ≠ #[]
  instructions : ∀ i ∈ b.instructions, ∀ label ∈ i.label, '\n' ∉ label.toList
  synthetic : ∀ s ∈ b.synthetic, '\n' ∉ s.label.toList

namespace Block.Legible

variable {b c : Block}

/-- What a block shows depends on its instructions and its label. -/
theorem congr (h : b.Legible) (hinstructions : c.instructions = b.instructions)
    (hsynthetic : c.synthetic = b.synthetic) : c.Legible := by
  refine ⟨?_, ?_, ?_⟩
  · rw [hinstructions]
    exact h.nonempty
  · rw [hinstructions]
    exact h.instructions
  · rw [hsynthetic]
    exact h.synthetic

theorem of_fixed (h : b.Legible) (hfixed : c.fixed = b.fixed) : c.Legible :=
  h.congr (instructions_of_fixed hfixed) (synthetic_of_fixed hfixed)

/-- A marker is legible if its label is. -/
theorem marker (pc : Address) {label : String} (mergeable : Bool) (h : '\n' ∉ label.toList) :
    (Block.marker pc label mergeable).Legible := by
  refine ⟨by simp [Block.marker], ?_, ?_⟩
  · intro i hi label hlabel
    obtain rfl : i = { pc := pc, opcode := [] } := by simpa [Block.marker] using hi
    cases hlabel
  · rintro s hs
    obtain rfl : ⟨label, mergeable⟩ = s := Option.some.inj hs
    exact h

/-- So is the block of an instruction, by the label of that. -/
theorem ofInstruction {i : Instruction} (h : ∀ label ∈ i.label, '\n' ∉ label.toList) :
    (Block.ofInstruction i).Legible := by
  refine ⟨by simp [Block.ofInstruction], ?_, nofun⟩
  intro j hj
  obtain rfl : j = i := by simpa [Block.ofInstruction] using hj
  exact h

end Block.Legible

namespace Graph

def Legible (g : Graph) : Prop := ∀ id, id < g.size → (g.block id).Legible

variable {g g' : Graph}

namespace Legible

/-- Adding a legible block and changing edges keeps all blocks legible. -/
theorem extended (h : Legible g) {new : Block} (hnew : new.Legible)
    (hsize : g'.size = g.size + 1)
    (hbody : ∀ id, (g'.block id).body = if id = g.size then new.body else (g.block id).body) :
    Legible g' := by
  intro id hid
  have hfixed := hbody id
  split at hfixed
  · exact hnew.of_fixed (Block.fixed_of_body hfixed)
  · rename_i hne
    rw [hsize] at hid
    exact (h id ((Nat.lt_succ_iff_lt_or_eq.1 hid).resolve_right hne)).of_fixed
      (Block.fixed_of_body hfixed)

/-! ## Passes -/

theorem divertCall (h : Legible g) (entry : BlockId) (call : Link) :
    Legible (divertCall entry g call) := by
  have hname : '\n' ∉ ("call to " ++ g.name entry).toList := by
    have hword : '\n' ∉ (g.name entry).toList := (IsWord.render _ _).not_mem (by decide)
    simp [hword]
  have hmarker : (g.callMarker entry).Legible :=
    (Block.Legible.marker (g.block entry).pc false hname).congr rfl rfl
  exact h.extended hmarker (size_divertCall entry g call) (body_divertCall entry g call)

/-- Call markers show a name, which is one word. -/
theorem splitCallSites (h : Legible g) (start : BlockId) : Legible (g.splitCallSites start).1 :=
  splitCallSites_induct start h fun _ _ entry call _ _ _ _ h => h.divertCall entry call

/-- A join shows the instructions of both blocks. -/
theorem absorb (h : Legible g) {p : Profile} {id next : BlockId}
    (hc : g.MergeCandidate p id next) : Legible (g.absorb id next) := by
  intro x hx
  rw [size_absorb] at hx
  have hinstructions := instructions_absorb_eq hc.unequal.symm hx
  have hshell := shell_absorb (g := g) hc.unequal.symm x
  generalize (g.absorb id next).block x = b at hinstructions hshell ⊢
  have hsynthetic : b.synthetic = (g.block x).synthetic := (congrArg Block.synthetic hshell :)
  have hlegible := h x hx
  split at hinstructions
  · refine ⟨?_, fun i hi => ?_, hsynthetic ▸ hlegible.synthetic⟩
    · rw [hinstructions]
      exact fun hnil => hlegible.nonempty (Array.append_eq_empty_iff.1 hnil).1
    · rw [hinstructions] at hi
      exact (Array.mem_append.1 hi).elim (hlegible.instructions i)
        ((h next hc.target_lt_size).instructions i)
  · exact hlegible.congr hinstructions hsynthetic

theorem mergeStraightLines (h : Legible g) (p : Profile) :
    Legible (g.mergeStraightLines p).graph :=
  mergeStraightLines_induct p h fun _ _ _ hc h => h.absorb hc

/-- The division changes nothing that is shown. -/
theorem partition (h : Legible g) (entries : List BlockId) : Legible (g.partition entries).1 := by
  refine partition_induct entries h fun g' entry h' id hid => ?_
  have hsize : (g'.cut entry (g'.name entry)).size = g'.size := (SameEdges.cut ..).size
  have hblock := h' id (hsize ▸ hid)
  rw [cut_eq, block_claimAll]
  split
  · exact hblock.congr rfl rfl
  · exact hblock

end Legible

end Graph

/-! ## The graphs of traces -/

open TraceFlow.Graph

namespace Recorder

variable {s : Setup} {r : Recorder} {inst : Instruction}

/-- A step makes at most one block, and labels it. -/
theorem Sound.legible_record (h : Sound s r) (hs : s.OneLine) (hlegible : r.graph.Legible) :
    (r.record s inst).graph.Legible := by
  intro id hid
  rw [Sound.size_record] at hid
  rcases Nat.lt_or_ge id r.graph.size with hold | hge
  · exact (hlegible id hold).of_fixed (h.fixed_record inst hold)
  · rcases h.catalogued.size_place (s.labelled inst) with hsame | hnew
    · exact absurd hid (Nat.not_lt.2 (hsame.1 ▸ hge))
    · rw [hnew.1] at hid
      obtain rfl : id = r.graph.size := Nat.le_antisymm (Nat.lt_succ_iff.1 hid) hge
      obtain ⟨ordinal, hblock⟩ := h.catalogued.block_place_new hnew.2
      refine (Block.Legible.ofInstruction (hs inst)).of_fixed ?_
      exact ((Sound.drawn_record s r inst).fixed _).trans (congrArg Block.fixed hblock :)

/-- A record keeps a graph legible. -/
theorem Sound.legible_feed (h : Sound s r) (hs : s.OneLine) (hlegible : r.graph.Legible)
    (rec : TraceRecord) : (r.feed s rec).graph.Legible := by
  cases rec with
  | instruction inst =>
    rw [feed_instruction]
    split
    · exact hlegible
    · exact h.legible_record hs hlegible
  | interrupt id => exact hlegible

theorem legible_new (s : Setup) : (Recorder.new s.profile).graph.Legible := by
  intro id hid
  obtain rfl : id = 0 := Nat.lt_one_iff.1 hid
  have hblock : (Recorder.new s.profile).graph.block 0 =
      .marker s.profile.beginAddress "BEGIN" false := block_insert (forProfile s.profile) _ 0
  rw [hblock]
  exact .marker _ _ (by decide)

/-- A state that records and lines lead to has legible blocks. -/
theorem Reached.legible (hs : s.OneLine) (h : Reached s r) : r.graph.Legible := by
  induction h with
  | new => exact legible_new s
  | @feed r h rec ih => exact h.sound.legible_feed hs ih rec
  | @feedLine r h line ih =>
    unfold Recorder.feedLine
    split
    · exact h.sound.countLine.legible_feed hs ih _
    · exact ih

/-- The block after the trace shows one word. -/
theorem Reached.legible_finish (hs : s.OneLine) (h : Reached s r) :
    (r.finish s.profile).graph.Legible := by
  have hend : (Sound.endMarker s.profile).Legible := .marker _ _ (by decide)
  refine (h.legible hs).extended hend (Sound.size_finish s.profile r) fun id => ?_
  rw [Sound.body_finish, apply_ite Block.body]

end Recorder

/-- The map of a trace has legible blocks if the setup's labels stand on one line. -/
theorem FunctionMap.legible_ofTrace {s : Setup} (hs : s.OneLine) (bytes : List UInt8) :
    (FunctionMap.ofTrace s bytes).graph.Legible := by
  have hraw : (Recording.ofTrace s bytes).graph.Legible :=
    (Recorder.Reached.new.feedLines (Trace.lines bytes)).legible_finish hs
  obtain ⟨hgraph, -, -⟩ := parts_functionMap s.profile (Recording.ofTrace s bytes)
  rw [FunctionMap.ofTrace, hgraph]
  exact ((hraw.splitCallSites _).mergeStraightLines _).partition _

end TraceFlow
