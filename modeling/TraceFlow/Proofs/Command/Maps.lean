/-
TraceFlow.Proofs.Command.Maps — the functions that a run works on.

A run first builds the functions of every log, reports those that could
not be built, and goes on only if there are none. This module follows it
to the point at which files are written.

* `gives_buildAll`: what the builds of several logs give, each in the
  files that the ones before it leave. It is an induction on the logs over
  `TraceFile.gives_build`. Without archives a build leaves the files as
  they are (`filesBuilt_false`), so all logs are read from one volume
  (`followed_of_mem_givenAll`).
* No build touches the layout tool (`sameTool_build`). That is a statement
  about the program and not about its result, so it is made with `Leaves`,
  program by program.
* `maps` are the functions of those logs that could be built. If there
  are as many as logs then all could be (`map_fst_mapsOf`): that is how
  the program finds out, by counting.
* `ends_runMaps` is the main statement: a run that ended well built all
  logs, and did its jobs in the session that the builds left.

Functions that were found by following a trace have words for names
(`isWord_of_mem_maps`), and the path of the trace has a stem, since a path
without one leads to no file (`isSome_fileStem?_of_mem_maps`).
-/
import TraceFlow.Proofs.Command.Writing
import TraceFlow.Proofs.FunctionMap.Entries
import TraceFlow.Proofs.TraceFile

namespace TraceFlow

open Session Volume

variable {v v' : Volume} {σ σ' : Session}

/-! ## Building several logs -/

namespace TraceFile

variable {cpu : Cpu} {archived : Bool} {traces : List String}

def givenAll (cpu : Cpu) (archived : Bool) (v : Volume) :
    List String → List (String × Except Failure FunctionMap)
  | [] => []
  | trace :: traces =>
    (trace, given cpu archived v trace) ::
      givenAll cpu archived (filesBuilt cpu archived v trace) traces

def filesBuiltAll (cpu : Cpu) (archived : Bool) (v : Volume) (traces : List String) : Volume :=
  traces.foldl (filesBuilt cpu archived) v

/-- Without archives, a build leaves the files as they are. -/
theorem filesBuilt_false (cpu : Cpu) (v : Volume) (trace : String) :
    filesBuilt cpu false v trace = v := by
  show filesFollowed cpu false v trace = v
  unfold filesFollowed
  split <;> rfl

/-- The builds of several logs give what each gives in the files that the earlier ones leave. -/
theorem gives_buildAll (cpu : Cpu) (archived : Bool) (v : Volume) (traces : List String) :
    Gives (buildAll cpu archived traces) v (givenAll cpu archived v traces)
      (filesBuiltAll cpu archived v traces) := by
  induction traces generalizing v with
  | nil => exact .pure [] v
  | cons trace traces ih =>
    exact (gives_build cpu archived v trace).bind ((ih _).bind (.pure _ _))

theorem map_fst_givenAll (cpu : Cpu) (archived : Bool) (v : Volume) (traces : List String) :
    (givenAll cpu archived v traces).map Prod.fst = traces := by
  induction traces generalizing v with
  | nil => rfl
  | cons trace traces ih => exact congrArg (trace :: ·) (ih _)

/-- Without archives, whatever is given was found by following a trace. -/
theorem followed_of_mem_givenAll {trace : String} {result : Except Failure FunctionMap}
    (h : (trace, result) ∈ givenAll cpu false v traces) : followed cpu v trace = result := by
  induction traces with
  | nil => cases h
  | cons first traces ih =>
    rw [givenAll, filesBuilt_false] at h
    rcases List.mem_cons.1 h with heq | h
    · cases heq
      rfl
    · exact ih h

theorem sameTool_load (trace : String) : Leaves SameTool (Archive.load trace) := by
  refine (sameTool_modified? _).bind fun t => (sameTool_modified? _).bind fun a => ?_
  split
  · refine (sameTool_read _).bind fun found => ?_
    cases found with
    | closed e => exact .pure _
    | unreadable e => exact (grew_note _).sameTool.bind fun _ => .pure _
    | bytes c =>
      dsimp only
      split
      · exact .pure _
      · exact (grew_note _).sameTool.bind fun _ => .pure _
  · exact .pure _

/-- Keeping a map in an archive leaves the layout tool as it is. -/
theorem sameTool_keep (trace : String) (map : FunctionMap) :
    Leaves SameTool (keep trace map) := by
  have hstore : Leaves SameTool (Archive.store trace map) :=
    (sameTool_write _ _).bind fun stored => by cases stored <;> exact .pure _
  exact hstore.bind fun stored => by cases stored <;> exact (grew_note _).sameTool

theorem sameTool_rebuild (cpu : Cpu) (archived : Bool) (trace : String) :
    Leaves SameTool (rebuild cpu archived trace) := by
  refine (sameTool_read trace).bind fun found => ?_
  dsimp only
  split
  · exact .pure _
  · rename_i bytes _
    have hfollow : Leaves SameTool (follow cpu bytes) :=
      (grew_noteAll _).sameTool.bind fun _ => .pure _
    refine hfollow.bind fun map => ?_
    cases archived with
    | true => exact (sameTool_keep trace map).bind fun _ => .pure _
    | false => exact .pure _

/-- No build touches the layout tool. -/
theorem sameTool_build (cpu : Cpu) (archived : Bool) (trace : String) :
    Leaves SameTool (build cpu archived trace) := by
  unfold build
  cases archived with
  | false => exact sameTool_rebuild cpu false trace
  | true =>
    refine (sameTool_load trace).bind fun found => ?_
    cases found with
    | some map => exact (grew_note _).sameTool.bind fun _ => .pure _
    | none => exact sameTool_rebuild cpu true trace

theorem sameTool_buildAll (cpu : Cpu) (archived : Bool) (traces : List String) :
    Leaves SameTool (buildAll cpu archived traces) := by
  induction traces with
  | nil => exact .pure _
  | cons trace traces ih =>
    exact (sameTool_build cpu archived trace).bind fun _ => ih.bind fun _ => .pure _

end TraceFile

/-! ## The maps of a run -/

namespace Command

variable {a : Arguments} {dir : String} {same : Bool}
  {built : List (String × Except Failure FunctionMap)}

def mapsOf (built : List (String × Except Failure FunctionMap)) : List (String × FunctionMap) :=
  built.filterMap fun e => e.2.toOption.map (e.1, ·)

/-- The maps that a run begun in a session works on. -/
def maps (a : Arguments) (σ : Session) : List (String × FunctionMap) :=
  mapsOf ((TraceFile.buildAll a.cpuOrFirst (a.has .archive) a.logs : StateM Session _) σ).1

/-- The maps of a run are those of the builds that its command line asks for. -/
theorem maps_eq (a : Arguments) (σ : Session) :
    maps a σ = mapsOf (TraceFile.givenAll a.cpuOrFirst (a.has .archive) σ.volume a.logs) :=
  congrArg mapsOf (TraceFile.gives_buildAll _ _ σ.volume _ σ rfl).1

/-- Reporting leaves the maps that could be built. -/
theorem gives_report (built : List (String × Except Failure FunctionMap)) (v : Volume) :
    Gives (report built) v (mapsOf built) v := by
  induction built with
  | nil => exact .pure [] v
  | cons e built ih =>
    obtain ⟨log, result⟩ := e
    cases result with
    | error e => exact (gives_note _ v).bind ih
    | ok map =>
      exact (gives_print _ v).bind ((gives_noteAll _ v).bind (ih.bind (.pure _ v)))

theorem grew_report (built : List (String × Except Failure FunctionMap)) :
    Leaves Grew (report built) := by
  induction built with
  | nil => exact .pure []
  | cons e built ih =>
    obtain ⟨log, result⟩ := e
    cases result with
    | error e => exact (grew_note _).bind fun _ => ih
    | ok map =>
      exact (grew_print _).bind fun _ => (grew_noteAll _).bind fun _ => ih.bind fun _ => .pure _

/-- The maps are those of the builds that did not fail. -/
theorem mem_mapsOf_iff {log : String} {map : FunctionMap} :
    (log, map) ∈ mapsOf built ↔ (log, .ok map) ∈ built := by
  unfold mapsOf
  rw [List.mem_filterMap]
  constructor
  · rintro ⟨⟨log', result⟩, hmem, h⟩
    cases result with
    | error e => cases h
    | ok map' =>
      cases h
      exact hmem
  · exact fun hmem => ⟨_, hmem, rfl⟩

/-- Where none is missing, there is a map for each log. -/
theorem map_fst_mapsOf (h : built.length ≤ (mapsOf built).length) :
    (mapsOf built).map Prod.fst = built.map Prod.fst := by
  induction built with
  | nil => rfl
  | cons e built ih =>
    obtain ⟨log, result⟩ := e
    cases result with
    | error e =>
      have hle : (mapsOf built).length ≤ built.length := List.length_filterMap_le _ _
      have hlost : built.length + 1 ≤ (mapsOf built).length := h
      omega
    | ok map => exact congrArg (log :: ·) (ih (Nat.le_of_succ_le_succ h))

/-- Without archives, a map is that of a trace in a file. -/
theorem followed_of_mem_maps {log : String} {map : FunctionMap} (harchive : a.has .archive = false)
    (hmap : (log, map) ∈ maps a σ) : TraceFile.followed a.cpuOrFirst σ.volume log = .ok map := by
  rw [maps_eq, mem_mapsOf_iff, harchive] at hmap
  exact TraceFile.followed_of_mem_givenAll hmap

/-- Functions that were found by following a trace have words for names. -/
theorem isWord_of_mem_maps {log function : String} {map : FunctionMap} {entry : BlockId}
    (harchive : a.has .archive = false) (hmap : (log, map) ∈ maps a σ)
    (hentry : map.functions.get? function = some entry) : IsWord function := by
  obtain ⟨bytes, -, -, rfl⟩ := TraceFile.followed_eq_ok (followed_of_mem_maps harchive hmap)
  have hreached : Recorder.Reached a.cpuOrFirst.setup
      (Recording.follow a.cpuOrFirst.setup bytes) := Recorder.Reached.new.feedLines _
  have hlisted : FunctionMap.entry? (FunctionMap.ofTrace a.cpuOrFirst.setup bytes) function =
      some entry := by
    unfold FunctionMap.entry?
    rw [hentry]
    rfl
  exact (FunctionMap.name_of_listed hreached hlisted).1 ▸ IsWord.render _ _

/-- A trace that was followed is a file, so its path has a stem. -/
theorem isSome_fileStem?_of_mem_maps {log : String} {map : FunctionMap}
    (harchive : a.has .archive = false) (hmap : (log, map) ∈ maps a σ) :
    (Path.fileStem? log).isSome := by
  obtain ⟨bytes, t, hfile, -⟩ := TraceFile.followed_eq_ok (followed_of_mem_maps harchive hmap)
  obtain ⟨_, hnames, -⟩ := file?_eq_some_iff.1 hfile
  rw [Path.fileStem?, fileName?_of_isName hnames.name]
  rfl

/-! ## What a run does -/

/-- The directory of the command line is used if and only if some files are to be written. -/
theorem ends_outputDir? {dir? : Option String} (hdir : a.outputDir = some dir)
    (h : Ends (outputDir? a) σ dir? σ') :
    σ' = σ ∧ (a.writesFiles = true ∧ dir? = some dir ∨ a.writesFiles = false ∧ dir? = none) := by
  unfold outputDir? at h
  split at h
  · rename_i hwrites
    rw [hdir] at h
    obtain ⟨there, σ₁, hthere, h⟩ := ends_bind_iff.1 h
    obtain rfl : σ = σ₁ := congrArg Prod.snd (ends_liftM_iff.1 hthere)
    cases there with
    | false => exact absurd h (not_ends_throw _)
    | true =>
      obtain ⟨rfl, rfl⟩ := ends_pure_iff.1 h
      exact ⟨rfl, .inl ⟨hwrites, rfl⟩⟩
  · rename_i hwrites
    obtain ⟨rfl, rfl⟩ := ends_pure_iff.1 h
    exact ⟨rfl, .inr ⟨Bool.eq_false_iff.2 hwrites, rfl⟩⟩

/-- Where no files are asked for, there are no jobs. -/
theorem jobs_eq_nil (h : a.writesFiles = false) (maps : List (String × FunctionMap)) :
    jobs a maps = [] := by
  simp only [Arguments.writesFiles, List.any_cons, List.any_nil, Bool.or_eq_false_iff] at h
  simp [jobs, kinds, forms, h]

/-- Comparing only adds to what was printed and noted. -/
theorem ends_compare {compared : Bool} {maps : List (String × FunctionMap)}
    (h : Ends (match compared, maps with
      | true, (_, left) :: (_, right) :: _ => liftM (compareMaps left right : StateM Session Bool)
      | _, _ => pure true : ExceptT Complaint (StateM Session) Bool) σ same σ') : Grew σ σ' := by
  split at h
  · rename_i left _ right _
    have hcompare : Leaves Grew (compareMaps left right) :=
      (grew_noteAll _).bind fun _ => (grew_print _).bind fun _ => .pure _
    exact hcompare.of_run (ends_liftM_iff.1 h)
  · obtain ⟨-, rfl⟩ := ends_pure_iff.1 h
    exact Std.Refl.refl σ

/-- A run that ends well built the functions of all logs, and did all jobs. -/
theorem ends_runMaps (hdir : a.outputDir = some dir) (hrun : Ends (runMaps a) σ same σ') :
    (maps a σ).map Prod.fst = a.logs ∧
      ∃ σ₁, SameTool σ σ₁ ∧ Ran dir a.logs.length (jobs a (maps a σ)) σ₁ σ' := by
  obtain ⟨dir?, σ₀, houtput, h⟩ := ends_bind_iff.1 hrun
  obtain ⟨rfl, hdir?⟩ := ends_outputDir? hdir houtput
  obtain ⟨-, h⟩ := ends_check h
  obtain ⟨built, σ₁, hbuild, h⟩ := ends_bind_iff.1 h
  obtain ⟨reported, σ₂, hreport, h⟩ := ends_bind_iff.1 h
  obtain ⟨hall, h⟩ := ends_check h
  rw [ends_liftM_iff] at hbuild hreport
  have hmapsOf : maps a σ₀ = mapsOf built := by rw [maps, hbuild]
  have hreported : reported = maps a σ₀ := by
    have hgives := (gives_report built σ₁.volume σ₁ rfl).1
    rw [hreport] at hgives
    exact hgives.trans hmapsOf.symm
  have hbuilt : built.map Prod.fst = a.logs := by
    have hgives := (TraceFile.gives_buildAll a.cpuOrFirst (a.has .archive) _ a.logs σ₀ rfl).1
    rw [hbuild] at hgives
    exact (congrArg (List.map Prod.fst) hgives).trans (TraceFile.map_fst_givenAll _ _ _ _)
  have hlength := congrArg List.length hbuilt
  rw [List.length_map] at hlength
  have hlogs : (maps a σ₀).map Prod.fst = a.logs := by
    rw [hreported, hmapsOf] at hall
    rw [hmapsOf, ← hbuilt]
    exact map_fst_mapsOf (by omega)
  have htool : SameTool σ₀ σ₂ :=
    ((grew_report built).of_run hreport).tool.trans
      ((TraceFile.sameTool_buildAll _ _ _).of_run hbuild)
  refine ⟨hlogs, σ₂, htool, ?_⟩
  rcases hdir? with ⟨-, rfl⟩ | ⟨hwrites, rfl⟩
  · have hcount : reported.length = a.logs.length := by
      rw [hreported, ← hlogs, List.length_map]
    obtain ⟨_, σ₃, hwrite, h⟩ := ends_bind_iff.1 h
    rw [hcount, hreported] at hwrite
    simpa using (ran_writeAll hwrite).append (.of_grew (ends_compare h))
  · rw [jobs_eq_nil hwrites]
    exact .of_grew (ends_compare h)

end Command

end TraceFlow
