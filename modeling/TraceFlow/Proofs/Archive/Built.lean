/-
TraceFlow.Proofs.Archive.Built — the numbers of a map that was built.

To read an archive back the map in it has to fit its words, and a map that
was built from a trace is only known through its stages. This module takes
the last of them away: dividing a graph into functions marks blocks and
shortens the index, and neither makes a number (`Fits.claim`, and by
induction over the cuts `Fits.partition`). The names under which functions
are kept belong to blocks that begin one, by the exactness of the maps. So
the map of a trace fits its words as soon as the graph that was divided
does, with the diagnostics and the counters (`FunctionMap.fits_ofTrace`),
and all of that can be evaluated.
-/
import TraceFlow.Proofs.Archive
import TraceFlow.Proofs.FunctionMap.Entries

namespace TraceFlow

namespace Graph

variable {g : Graph}

/-- A list that is shortened holds no new number. -/
theorem Fits.unindex (h : g.Fits) (id : BlockId) : (g.unindex id).Fits := by
  refine ⟨by rw [blocks_unindex]; exact h.blocks, fun e he => ?_, by
    rw [digits_unindex]; exact h.digits⟩
  obtain ⟨pc, ids⟩ := e
  unfold Graph.unindex at he
  dsimp only at he
  split at he
  · exact h.index _ he
  · rename_i listed hlisted
    simp only [SortedMap.mem_entries_iff] at he
    have hold := h.index _ (SortedMap.mem_entries_iff.2 hlisted)
    split at he
    · rw [SortedMap.get?_erase] at he
      split at he
      · cases he
      · exact h.index _ (SortedMap.mem_entries_iff.2 he)
    · rw [SortedMap.get?_insert] at he
      split at he
      · rename_i hpc
        cases he
        exact ⟨hpc ▸ hold.1, fun id' hid' => hold.2 id' (List.mem_of_mem_filter hid')⟩
      · exact h.index _ (SortedMap.mem_entries_iff.2 he)

/-- Marking a block as part of a function changes none of its numbers. -/
theorem Fits.claim (h : g.Fits) (name : String) (id : BlockId) : (claim name g id).Fits := by
  refine Fits.unindex (g := g.modify id _) ⟨fun b hb => ?_, h.index, h.digits⟩ id
  rw [Graph.modify, Array.toList_modify, List.mem_iff_getElem?] at hb
  obtain ⟨j, hj⟩ := hb
  rw [List.getElem?_modify] at hj
  obtain ⟨b', hb', rfl⟩ := Option.map_eq_some_iff.1 hj
  have hold := h.blocks b' (List.mem_of_getElem? hb')
  split
  · exact ⟨hold.instructions, hold.ordinal, hold.mergedInto, hold.out, hold.into⟩
  · exact hold

/-- Dividing a graph into functions changes none of its numbers. -/
theorem Fits.partition (h : g.Fits) (entries : List BlockId) : (g.partition entries).1.Fits := by
  refine partition_induct (P := Graph.Fits) entries h fun g entry hg => ?_
  rw [cut_eq]
  exact List.foldlRecOn (motive := Graph.Fits) _ _ hg fun _ hg id _ => hg.claim _ id

end Graph

/-- The map of a trace fits its words if the graph does that was divided. -/
theorem FunctionMap.fits_ofTrace {s : Setup} {bytes : List UInt8}
    (hgraph : ((Recording.ofTrace s bytes).extraction s.profile).merged.graph.Fits)
    (hbeginnings : ∀ id ∈ (Recording.ofTrace s bytes).beginnings, id < wordSize 32)
    (hdiagnostics : ∀ d ∈ (Recording.ofTrace s bytes).diagnostics, d.Fits)
    (htally : (ofTrace s bytes).tally.Fits) : (ofTrace s bytes).Fits := by
  have hexact : Exact (Recording.ofTrace s bytes) (ofTrace s bytes) :=
    exact_functionMap (Recorder.Reached.new.feedLines _)
  have hlisted : ∀ e ∈ (ofTrace s bytes).functions.entries ++
      (ofTrace s bytes).innerFunctions.entries, e.2 < wordSize 32 := by
    intro e he
    obtain ⟨id, hid, rfl⟩ := List.mem_map.1 (hexact.once.mem_iff.1 he)
    exact hbeginnings id hid
  have hdivided : (ofTrace s bytes).graph.Fits := by
    obtain ⟨hparts, -⟩ := parts_functionMap s.profile (Recording.ofTrace s bytes)
    rw [show (ofTrace s bytes).graph = _ from hparts]
    exact hgraph.partition _
  refine ⟨hdivided, fun e he => hlisted e (List.mem_append_left _ he),
    fun e he => hlisted e (List.mem_append_right _ he), fun d hd => ?_, htally⟩
  rcases List.mem_append.1 hd with hd | hd
  · exact hdiagnostics d hd
  · obtain ⟨name, -, rfl⟩ := List.mem_map.1 hd
    trivial

end TraceFlow
