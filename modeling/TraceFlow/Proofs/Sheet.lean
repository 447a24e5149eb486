/-
TraceFlow.Proofs.Sheet — all forms of a function tell the same graph.

A function is written as a table, a document, a plain listing and a drawing.
That they agree cannot be said by comparing texts. Instead each form has a
reader of its own, in the modules behind this one, which knows the form and
nothing of the map, and all of them give an `Outline`: the names of the
blocks in order, and the edges with their ends in writing.

`SheetsAgree` says what the four readers give: the edges of the function in
order and, but for the table, its name and its blocks. A drawing tells edges
by tags, so it is read in two steps, as what stands there and then with the
tags replaced; no tag is declared twice, and both ends of every edge are
declared. Blocks and edges are told once each, since the closure of a block
lists them once.

`SheetsAgree.of_legible` gathers the readers' lemmas. What they ask of the
map holds of every function of every trace (`sheets_agree`): names of blocks
are words, no label of an instruction holds a line feed, and a count never
outgrows its word.
-/
import TraceFlow.Proofs.Graph.DepthFirst
import TraceFlow.Proofs.Sheet.Document
import TraceFlow.Proofs.Sheet.Dot
import TraceFlow.Proofs.Sheet.Plain
import TraceFlow.Proofs.Sheet.Table
import TraceFlow.Sheet

namespace TraceFlow.FunctionMap

open TraceFlow.Graph

variable {m : FunctionMap} {function : String} {entry : BlockId}

/-- The sheets of a function tell the same: each of them is read as the edges of the function, in
order, and all but the table also as its name and its blocks. No block and no edge is told twice.
The drawing is read by its tags first: no two nodes have one tag, and both ends of every edge are
nodes. -/
structure SheetsAgree (m : FunctionMap) (function : String) (entry : BlockId) : Prop where
  table : Sheet.Table.links? function (m.sheet .csv function entry) = some (m.outline entry).links
  document : Sheet.Document.read? (m.sheet .json function entry) = some (function, m.outline entry)
  plain : Sheet.Plain.read? (m.sheet .text function entry) = some (function, m.outline entry)
  drawing : Sheet.Dot.read? (m.sheet .dot function entry) =
    some (Sheet.Dot.sketch m function entry)
  translated : (Sheet.Dot.sketch m function entry).outline? = some (m.outline entry)
  tags : (Sheet.Dot.sketch m function entry).tags.Nodup
  declared : ∀ e ∈ (Sheet.Dot.sketch m function entry).edges,
    e.source ∈ (Sheet.Dot.sketch m function entry).tags ∧
      e.target ∈ (Sheet.Dot.sketch m function entry).tags
  blocksOnce : (m.walk entry).Nodup
  linksOnce : ((m.links entry).map fun l => (l.source, l.target)).Nodup

/-- Sheets of a legible graph agree, for a function that is named by a word. -/
theorem SheetsAgree.of_legible (hfunction : IsWord function) (hmirrored : Mirrored m.graph)
    (hlegible : m.graph.Legible) (hentry : entry < m.graph.size) :
    SheetsAgree m function entry where
  table := Sheet.Table.links?_render m function entry
  document := by
    refine Sheet.Document.read?_render (fun l hl => ?_) function
    have hcount := hmirrored.le (mem_closureLinks_iff.1 hl).2
    exact Nat.lt_of_le_of_lt hcount (by decide)
  plain := Sheet.Plain.read?_render hfunction fun id hid =>
    hlegible id ((hmirrored.depthFirst hentry).known id hid)
  drawing := Sheet.Dot.read?_render hfunction
  translated := Sheet.Dot.outline?_sketch
  tags := Sheet.Dot.nodup_tags_sketch
  declared := Sheet.Dot.declared_sketch
  blocksOnce := Traversal.nodup_visit entry
  linksOnce := (linksAlong_closure m.graph entry).once

/-- **All sheets of a function tell the same graph**, whatever the trace is: the table, the
document, the plain listing and the drawing are each read as the edges of the function, each once,
in one order, with the same ends, kinds and counts; the last three also as the blocks that it walks
through, each once, in one order; and every end of an edge that is drawn is a node. -/
theorem sheets_agree (cpu : Cpu) (bytes : List UInt8)
    (h : FunctionMap.entry? (ofTrace cpu.setup bytes) function = some entry) :
    SheetsAgree (ofTrace cpu.setup bytes) function entry := by
  have hr : Recorder.Reached cpu.setup (Recording.follow cpu.setup bytes) :=
    Recorder.Reached.new.feedLines _
  obtain ⟨hname, hsize⟩ := name_of_listed hr h
  have hword : IsWord function := hname ▸ .name _ entry
  exact .of_legible hword (mirrored_functionMap hr.sound)
    (legible_ofTrace cpu.oneLine_setup bytes) hsize

/-- A loop that calls a function on its way, and leaves it at the end. -/
theorem sheets_agree_loop :
    let bytes := Utf8.encode ("PC: 100 | OPCODE: CD | MEM: 0002\nPC: 200 | OPCODE: C9\n" ++
      "PC: 103 | OPCODE: 20 | MEM: FB\nPC: 100 | OPCODE: CD | MEM: 0002\n" ++
      "PC: 200 | OPCODE: C9\nPC: 103 | OPCODE: 20 | MEM: FB\nPC: 105 | OPCODE: 00\n")
    let m := ofTrace Cpu.gameBoy.setup bytes
    m.entry? "loc_10000S" = some 0 ∧ SheetsAgree m "loc_10000S" 0 := by
  intro bytes m
  have hr : Recorder.Reached Cpu.gameBoy.setup (Recording.follow Cpu.gameBoy.setup bytes) :=
    Recorder.Reached.new.feedLines _
  have hexact : Exact (Recording.ofTrace Cpu.gameBoy.setup bytes) m := exact_functionMap hr
  have hraw : (Recording.ofTrace Cpu.gameBoy.setup bytes).start = 0 ∧
      (Recording.ofTrace Cpu.gameBoy.setup bytes).graph.name 0 = "loc_10000S" := by
    decide +kernel
  have hstart : m.functions.get? "loc_10000S" = some 0 := hraw.2 ▸ hraw.1 ▸ hexact.start
  have hentry : m.entry? "loc_10000S" = some 0 := by
    unfold FunctionMap.entry?
    rw [hstart]
    rfl
  exact ⟨hentry, sheets_agree .gameBoy bytes hentry⟩

end TraceFlow.FunctionMap
