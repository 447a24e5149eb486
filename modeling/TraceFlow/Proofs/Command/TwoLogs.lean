/-
TraceFlow.Proofs.Command.TwoLogs — a run with two logs, followed through.

The theorem about the files of several logs is about runs that ended
well. This module gives such runs: two logs of one function each, written
as tables.

* `gives_run`: a run that writes one table for each of two logs ends well
  if each directory can be made and each table written (`CanTable`), and
  leaves the files so written. It is stated for any volume and any two
  maps of one function. `CanTable` can be decided, so a run on given files
  needs no more than the files.
* `twoDirectories` holds two logs of one instruction each, in directories
  of their own. Their names are left open: they decide whether the stems
  are the same (`ends_run`).
* Both logs have a function of one name, with different tables
  (`sheet_ne`). The tables are not worked out. The first edge that a table
  lists leads from the function's entry to the first block of the trace
  (`head?_links`, an instance of what holds of all claimed blocks), and
  the two traces begin at different addresses.
-/
import TraceFlow.Proofs.Command.Maps
import TraceFlow.Proofs.Sheet.Table

namespace TraceFlow.Command

open Session Volume

def twoLogs (log log' : String) : Arguments where
  logs := [log, log']
  flags := [.csv]
  outputDir := some "out"

/-- A trace of one instruction behind that of `TraceFile.oneStep`. -/
def laterStep : List UInt8 := Utf8.encode "PC:2|OPCODE:00\n"

/-- Two directories with a log in each, and one for the files. -/
def twoDirectories (log log' : String) : Session where
  volume := { nodes := .ofList [("a", .directory 0), (log, .file TraceFile.oneStep 0),
    ("b", .directory 0), (log', .file laterStep 0), ("out", .directory 0)] }

section

variable {v : Volume} {log log' path function : String} {entry : BlockId} {map : FunctionMap}

/-- The files once a log with one function was written as a table. -/
def tabled (v : Volume) (path function : String) (entry : BlockId) (map : FunctionMap) : Volume :=
  written (made v path) (Sheet.File.path path function "csv")
    (Utf8.encode (map.sheet .csv function entry))

def CanTable (v : Volume) (path function : String) (entry : BlockId) (map : FunctionMap) : Prop :=
  CanMake v path ∧ ((made v path).write (Sheet.File.path path function "csv")
    (Utf8.encode (map.sheet .csv function entry))).isOk

instance (v : Volume) (path function : String) (entry : BlockId) (map : FunctionMap) :
    Decidable (CanTable v path function entry map) :=
  inferInstanceAs (Decidable (_ ∧ _))

/-- Writing a map of one function as a table leaves the files with that table. -/
theorem gives_writeFiles (hentries : map.functions.entries = [(function, entry)])
    (h : CanTable v path function entry map) :
    Gives (writeFiles (twoLogs log log') map path).run v (.ok ())
      (tabled v path function entry map) := by
  have hwrite := gives_write (Sheet.File.path path function "csv")
    (Utf8.encode (map.sheet .csv function entry)) (made v path)
  rw [write_eq_written h.2] at hwrite
  have hfile : Gives (Sheet.File.write map .csv path) (made v path)
      (.ok [Sheet.File.path path function "csv"]) (tabled v path function entry map) := by
    rw [Sheet.File.write, hentries]
    exact hwrite.bind ((gives_note _ _).bind ((Gives.pure _ _).bind (.pure _ _)))
  have hforms : Gives (writeForms map path [.csv]) (made v path) (.ok ())
      (tabled v path function entry map) :=
    hfile.bind ((gives_note _ _).bind (.pure _ _))
  exact (gives_makeDirectories h.1).lift.bindOk (hforms.lift.bindOk (.pure _ _))

/-- A run that writes a table for each of two logs ends well. -/
theorem gives_run {map' : FunctionMap} {entry' : BlockId} {function' : String}
    (hout : v.isDirectory "out" = true)
    (hlog : TraceFile.given .gameBoy false v log = .ok map)
    (hlog' : TraceFile.given .gameBoy false v log' = .ok map')
    (hentries : map.functions.entries = [(function, entry)])
    (hentries' : map'.functions.entries = [(function', entry')])
    (h : CanTable v (logDir "out" log 2) function entry map)
    (h' : CanTable (tabled v (logDir "out" log 2) function entry map) (logDir "out" log' 2)
      function' entry' map') :
    Gives (run (twoLogs log log')).run v (.ok true)
      (tabled (tabled v (logDir "out" log 2) function entry map) (logDir "out" log' 2) function'
        entry' map') := by
  have houtput : Gives (outputDir? (twoLogs log log')).run v (.ok (some "out")) v := by
    have hthere := gives_isDirectory "out" v
    rw [hout] at hthere
    exact hthere.lift.bindOk (.pure _ _)
  have hbuilt := TraceFile.gives_buildAll .gameBoy false v [log, log']
  simp only [TraceFile.givenAll, TraceFile.filesBuiltAll, List.foldl_cons, List.foldl_nil,
    TraceFile.filesBuilt_false, hlog, hlog'] at hbuilt
  have hreport := gives_report [(log, .ok map), (log', .ok map')] v
  exact houtput.bindOk (hbuilt.lift.bindOk (hreport.lift.bindOk
    ((Gives.bindOk (gives_writeFiles hentries h).tryCatch
      (Gives.bindOk (gives_writeFiles hentries' h').tryCatch (.pure _ _))).bindOk (.pure _ _))))

end

def oneStepMap : FunctionMap := .ofTrace Cpu.gameBoy.setup TraceFile.oneStep

def laterStepMap : FunctionMap := .ofTrace Cpu.gameBoy.setup laterStep

/-- The first trace has one function. -/
theorem entries_oneStepMap : oneStepMap.functions.entries = [("loc_10000S", 0)] := by
  decide +kernel

/-- The second trace has a function of the same name. -/
theorem entries_laterStepMap : laterStepMap.functions.entries = [("loc_10000S", 0)] := by
  decide +kernel

def bothTabled (log log' : String) : Volume :=
  tabled (tabled (twoDirectories log log').volume (logDir "out" log 2) "loc_10000S" 0 oneStepMap)
    (logDir "out" log' 2) "loc_10000S" 0 laterStepMap

/-- The run of both logs ends well if each table can be written. -/
theorem ends_run {log log' : String}
    (hout : (twoDirectories log log').volume.isDirectory "out" = true)
    (hlog : (twoDirectories log log').volume.file? log = some (TraceFile.oneStep, 0))
    (hlog' : (twoDirectories log log').volume.file? log' = some (laterStep, 0))
    (h : CanTable (twoDirectories log log').volume (logDir "out" log 2) "loc_10000S" 0 oneStepMap)
    (h' : CanTable
      (tabled (twoDirectories log log').volume (logDir "out" log 2) "loc_10000S" 0 oneStepMap)
      (logDir "out" log' 2) "loc_10000S" 0 laterStepMap) :
    ∃ σ', Ends (run (twoLogs log log')) (twoDirectories log log') true σ' ∧
      σ'.volume = bothTabled log log' :=
  Gives.ends (gives_run hout (TraceFile.given_of_file? .gameBoy hlog)
    (TraceFile.given_of_file? .gameBoy hlog') entries_oneStepMap entries_laterStepMap h h')

/-- The first edge that a function lists leaves its entry, whichever blocks were given to functions
since. -/
theorem head?_links {m : FunctionMap} {g : Graph} {tops : List BlockId} {l : Link}
    (h : g.Claimed tops m.graph) (hl : (g.linksFrom entry).head? = some l) :
    (m.outline entry).links.head? = some (l.written g.name) := by
  have hfrom : m.graph.linksFrom entry = g.linksFrom entry := by
    rw [Graph.linksFrom, Graph.linksFrom, h.same.out]
  have hname : m.graph.name = g.name := funext h.name
  obtain ⟨rest, hwalk⟩ := List.head?_eq_some_iff.1
    (Traversal.head?_visit entry : (m.walk entry).head? = some entry)
  have hlinks : m.links entry = g.linksFrom entry ++ rest.flatMap m.graph.linksFrom := by
    rw [FunctionMap.links, Graph.closureLinks, ← hfrom, ← List.flatMap_cons, ← hwalk]
    rfl
  obtain ⟨more, hmore⟩ := List.head?_eq_some_iff.1 hl
  rw [FunctionMap.outline, hlinks, hname, hmore]
  rfl

/-- The first edge of a trace leads to the block of its first instruction. -/
theorem head?_links_ofTrace {cpu : Cpu} {bytes : List UInt8} {l : Link}
    (hl : (((Recording.ofTrace cpu.setup bytes).extraction cpu.profile).merged.graph.linksFrom
      entry).head? = some l) :
    ((FunctionMap.ofTrace cpu.setup bytes).outline entry).links.head? = some (l.written
      ((Recording.ofTrace cpu.setup bytes).extraction cpu.profile).merged.graph.name) := by
  have hr : Recorder.Reached cpu.setup (Recording.follow cpu.setup bytes) :=
    Recorder.Reached.new.feedLines _
  exact head?_links (hr.sound.raw_finish.claimable.mergeStraightLines cpu.profile).claimed hl

/-- The two functions have different tables. -/
theorem sheet_ne :
    oneStepMap.sheet .csv "loc_10000S" 0 ≠ laterStepMap.sheet .csv "loc_10000S" 0 := by
  intro heq
  have hread : Sheet.Table.links? "loc_10000S" (oneStepMap.sheet .csv "loc_10000S" 0) =
      some (oneStepMap.outline 0).links := Sheet.Table.links?_render ..
  have hread' : Sheet.Table.links? "loc_10000S" (laterStepMap.sheet .csv "loc_10000S" 0) =
      some (laterStepMap.outline 0).links := Sheet.Table.links?_render ..
  have hhead : (oneStepMap.outline 0).links.head? = some ⟨"loc_10000S", "loc_0001", .normal, 1⟩ :=
    (head?_links_ofTrace (l := ⟨0, 1, .normal, 1⟩) (by decide +kernel)).trans (by decide +kernel)
  have hhead' : (laterStepMap.outline 0).links.head? =
      some ⟨"loc_10000S", "loc_0002", .normal, 1⟩ :=
    (head?_links_ofTrace (l := ⟨0, 1, .normal, 1⟩) (by decide +kernel)).trans (by decide +kernel)
  rw [heq, hread', Option.some.injEq] at hread
  rw [hread, hhead] at hhead'
  exact absurd hhead' (by decide)

/-- The maps of the run are those of the two traces. -/
theorem maps_twoLogs {log log' : String}
    (hlog : (twoDirectories log log').volume.file? log = some (TraceFile.oneStep, 0))
    (hlog' : (twoDirectories log log').volume.file? log' = some (laterStep, 0)) :
    maps (twoLogs log log') (twoDirectories log log') =
      [(log, oneStepMap), (log', laterStepMap)] := by
  have hgiven := TraceFile.given_of_file? .gameBoy hlog
  have hgiven' := TraceFile.given_of_file? .gameBoy hlog'
  have hall : TraceFile.givenAll .gameBoy false (twoDirectories log log').volume [log, log'] =
      [(log, .ok oneStepMap), (log', .ok laterStepMap)] := by
    simp only [TraceFile.givenAll, TraceFile.filesBuilt_false, hgiven, hgiven']
    rfl
  rw [maps_eq]
  exact congrArg mapsOf hall

def tableJob (log : String) (map : FunctionMap) : Job := ⟨log, map, .sheet .csv, "loc_10000S", 0⟩

end TraceFlow.Command
