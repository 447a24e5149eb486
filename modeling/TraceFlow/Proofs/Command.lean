/-
TraceFlow.Proofs.Command — the files of several logs.

A run names the directory for the files of a log by the stem of the log's
path alone. `FilesLeft` says what that leaves, field by field:

* `last`: every file holds what was written last to it. The run of the
  program is taken apart in Command.Writing and Command.Maps, which makes
  it one run of writes (`done_of_ends`); `Written.last` does the rest.
* `folders`, `files`: two files lie in one directory exactly if their logs
  have one stem, and are one file exactly if function and kind are the
  same as well. Both are facts about paths (`Job.sameFolder_iff`,
  `Job.sameFile_iff`) and hold in the directories that the run leaves.
* `inside`: the directory of a log is a step below that of all files.
* `own`: where no two logs have one stem, the jobs of one directory are
  of one log (`Done.log_eq`). So the last one that writes a file is the
  one that it is for, and the functions of different logs stay apart.
* `wellNamed`: what `own` asks of names is met by all that was found by
  following a trace. An archive can bring any name.

Stems of dots are set apart, since "." and ".." lead from the top of the
volume to the top, and so do not tell two logs apart there.

The condition on stems cannot be left out. `files_of_one_stem` runs the
program on two logs of one stem in two directories: a function of the
first is lost to the second.
-/
import TraceFlow.Proofs.Command.Directories
import TraceFlow.Proofs.Command.TwoLogs

namespace TraceFlow.Command

open Session Volume

variable {a : Arguments} {dir : String} {count : Nat} {σ σ' : Session} {same : Bool} {j j' : Job}

/-! ## What a run leaves -/

/-- The file of one job holds what another one is to write. -/
def Holds (σ : Session) (v : Volume) (dir : String) (count : Nat) (j writer : Job) : Prop :=
  ∃ bytes t, writer.content? σ.tool = some bytes ∧ v.file? (j.file dir count) = some (bytes, t)

/-- The names of functions can be parts of file names, and the paths of logs have stems. -/
structure WellNamed (a : Arguments) (σ : Session) : Prop where
  plain : ∀ j ∈ jobs a (maps a σ), j.Plain
  stems : ∀ log ∈ a.logs, (Path.fileStem? log).isSome

/-- What a run with several logs that ended well leaves of their files. -/
structure FilesLeft (a : Arguments) (dir : String) (σ σ' : Session) : Prop where
  /-- Every log has its functions. -/
  logs : (maps a σ).map Prod.fst = a.logs
  /-- Every file holds what was written last to it: a function as its own log has it. -/
  last : ∀ j ∈ jobs a (maps a σ), ∃ last,
    IsLast σ'.volume (Job.file dir a.logs.length) (jobs a (maps a σ))
      (j.file dir a.logs.length) last ∧ Holds σ σ'.volume dir a.logs.length j last
  /-- Only an archive can bring other names. -/
  wellNamed : a.has .archive = false → WellNamed a σ
  /-- A stem that is a name names a directory in that of all files, where the file lies. -/
  inside : ∀ j ∈ jobs a (maps a σ), j.Plain → ∀ stem, Path.fileStem? j.log = some stem →
    isName stem → ∃ s, σ'.volume.place dir = .ok s ∧
      σ'.volume.folder (j.file dir a.logs.length) = .ok (s ++ [stem])
  /-- Two files lie in one directory exactly if their logs have one stem; but stems of dots both
  lead from the top to the top. -/
  folders : ∀ j ∈ jobs a (maps a σ), ∀ j' ∈ jobs a (maps a σ), j.Plain → j'.Plain →
    ∀ stem stem', Path.fileStem? j.log = some stem → Path.fileStem? j'.log = some stem' →
      (j.SameFolder σ'.volume dir a.logs.length j' ↔ stem = stem' ∨
        σ'.volume.place dir = .ok [] ∧ isName stem = false ∧ isName stem' = false)
  /-- In one directory, two files are one exactly if function and kind are. -/
  files : ∀ j ∈ jobs a (maps a σ), ∀ j' ∈ jobs a (maps a σ), j.Plain → j'.Plain →
    (j.SameFile σ'.volume dir a.logs.length j' ↔
      j.SameFolder σ'.volume dir a.logs.length j' ∧ j.function = j'.function ∧ j.kind = j'.kind)
  /-- Where no two logs have one stem, functions of different logs lie in different directories, and
  every file holds the function that it was written for. -/
  own : WellNamed a σ → (a.logs.map Path.fileStem?).Nodup →
    (σ'.volume.place dir = .ok [] → ∀ log ∈ a.logs, ∀ stem, Path.fileStem? log = some stem →
      isName stem) →
    (∀ j ∈ jobs a (maps a σ), ∀ j' ∈ jobs a (maps a σ),
      j.SameFolder σ'.volume dir a.logs.length j' → j.log = j'.log) ∧
    ∀ j ∈ jobs a (maps a σ), Holds σ σ'.volume dir a.logs.length j j

/-- The functions of all logs were found, and their files written. -/
structure Done (a : Arguments) (dir : String) (σ σ' : Session) : Prop where
  logs : (maps a σ).map Prod.fst = a.logs
  several : a.logs.length ≠ 1
  written : ∃ v, Written (Job.file dir a.logs.length) (Job.content? σ.tool) v
    (jobs a (maps a σ)) σ'.volume

/-- A run that ended well is a run of writes: its jobs, in order. -/
theorem done_of_ends (hrun : Ends (run a) σ same σ') (hlinear : a.has .linear = false)
    (hdir : a.outputDir = some dir) (hmany : 2 ≤ a.logs.length) : Done a dir σ σ' := by
  unfold run at hrun
  rw [if_neg (by simp [hlinear])] at hrun
  obtain ⟨hlogs, σ₁, htool, hran⟩ := ends_runMaps hdir hrun
  have hwritten := hran.written
  rw [htool] at hwritten
  exact ⟨hlogs, by omega, σ₁.volume, hwritten⟩

/-- Jobs of one log, function and kind are one. -/
theorem eq_of_mem_jobs {maps : List (String × FunctionMap)} (hnodup : (maps.map Prod.fst).Nodup)
    (hj : j ∈ jobs a maps) (hj' : j' ∈ jobs a maps) (hlog : j.log = j'.log)
    (hfunction : j.function = j'.function) (hkind : j.kind = j'.kind) : j = j' := by
  obtain ⟨hmap, -, hentry⟩ := mem_jobs_iff.1 hj
  obtain ⟨hmap', -, hentry'⟩ := mem_jobs_iff.1 hj'
  have hsame := congrArg Prod.snd (List.inj_on_of_nodup_map hnodup hmap hmap' hlog)
  cases j
  cases j'
  dsimp only at hlog hfunction hkind hsame hentry hentry'
  subst hlog hfunction hkind hsame
  rw [hentry, Option.some.injEq] at hentry'
  rw [hentry']

namespace Done

variable (h : Done a dir σ σ')

include h

/-- The path of every job names a file in the volume that is left. -/
theorem names (hj : j ∈ jobs a (maps a σ)) :
    ∃ d, σ'.volume.Names (j.file dir a.logs.length) d := by
  obtain ⟨v, hwritten⟩ := h.written
  exact hwritten.names hj

/-- The file of a job holds what the last job with that file wrote. -/
theorem last (hj : j ∈ jobs a (maps a σ)) : ∃ last,
    IsLast σ'.volume (Job.file dir a.logs.length) (jobs a (maps a σ))
      (j.file dir a.logs.length) last ∧ Holds σ σ'.volume dir a.logs.length j last := by
  obtain ⟨v, hwritten⟩ := h.written
  obtain ⟨last, bytes, t, hlast, hholds⟩ := hwritten.last hj
  exact ⟨last, hlast, bytes, t, hholds⟩

/-- Every job is of a log of the command line. -/
theorem log_mem (hj : j ∈ jobs a (maps a σ)) : j.log ∈ a.logs := by
  rw [← h.logs]
  exact List.mem_map.2 ⟨_, (mem_jobs_iff.1 hj).1, rfl⟩

/-- Functions that were found by following traces have words for names. -/
theorem wellNamed (harchive : a.has .archive = false) : WellNamed a σ := by
  refine ⟨fun j hj => ?_, fun log hlog => ?_⟩
  · obtain ⟨hmap, -, hentry⟩ := mem_jobs_iff.1 hj
    exact (isWord_of_mem_maps harchive hmap hentry).not_mem (by decide)
  · rw [← h.logs] at hlog
    obtain ⟨⟨_, map⟩, hmap, rfl⟩ := List.mem_map.1 hlog
    exact isSome_fileStem?_of_mem_maps harchive hmap

section

variable (hnamed : WellNamed a σ) (hnodup : (a.logs.map Path.fileStem?).Nodup)
  (htop : σ'.volume.place dir = .ok [] → ∀ log ∈ a.logs, ∀ stem, Path.fileStem? log = some stem →
    isName stem)

include hnamed hnodup htop

/-- Where no two logs have one stem, a directory is that of one log. -/
theorem log_eq (hj : j ∈ jobs a (maps a σ)) (hj' : j' ∈ jobs a (maps a σ))
    (hfolder : j.SameFolder σ'.volume dir a.logs.length j') : j.log = j'.log := by
  obtain ⟨stem, hstem⟩ := Option.isSome_iff_exists.1 (hnamed.stems _ (h.log_mem hj))
  obtain ⟨stem', hstem'⟩ := Option.isSome_iff_exists.1 (hnamed.stems _ (h.log_mem hj'))
  obtain ⟨d, hd⟩ := h.names hj
  obtain ⟨d', hd'⟩ := h.names hj'
  rcases (Job.sameFolder_iff (hnamed.plain j hj) hd (hnamed.plain j' hj') hd' h.several hstem
    hstem').1 hfolder with rfl | ⟨hplace, hdots, -⟩
  · exact List.inj_on_of_nodup_map hnodup (h.log_mem hj) (h.log_mem hj') (hstem.trans hstem'.symm)
  · rw [htop hplace _ (h.log_mem hj) stem hstem] at hdots
    cases hdots

/-- There, what is written last to a file is what it was meant for. -/
theorem holds (hj : j ∈ jobs a (maps a σ)) : Holds σ σ'.volume dir a.logs.length j j := by
  obtain ⟨last, hlast, hholds⟩ := h.last hj
  obtain ⟨d, hd⟩ := h.names hj
  obtain ⟨d', hd'⟩ := h.names hlast.mem
  obtain ⟨hfolder, hfunction, hkind⟩ :=
    (Job.sameFile_iff (hnamed.plain last hlast.mem) hd' (hnamed.plain j hj) hd).1 hlast.spot
  have hlog := h.log_eq hnamed hnodup htop hlast.mem hj hfolder
  have hlogs : ((maps a σ).map Prod.fst).Nodup := h.logs ▸ List.Nodup.of_map _ hnodup
  rwa [eq_of_mem_jobs hlogs hlast.mem hj hlog hfunction hkind] at hholds

end

end Done

/-- **Every file that a run with several logs writes holds the function of the last log that has the
same stem and a function of that name**: the directories of two logs are one exactly if their stems
are. Where no two logs have one stem, the functions of different logs lie in different directories,
and every file holds the function that it was written for. -/
theorem files_of_logs (hrun : Ends (run a) σ same σ') (hlinear : a.has .linear = false)
    (hdir : a.outputDir = some dir) (hmany : 2 ≤ a.logs.length) : FilesLeft a dir σ σ' := by
  have h : Done a dir σ σ' := done_of_ends hrun hlinear hdir hmany
  refine ⟨h.logs, fun j hj => h.last hj, h.wellNamed, ?inside, ?folders, ?files, ?own⟩
  case inside =>
    intro j hj hplain stem hstem hname
    obtain ⟨d, hd⟩ := h.names hj
    exact Job.folder_eq_of_isName hplain hd h.several hstem hname
  case folders =>
    intro j hj j' hj' hplain hplain' stem stem' hstem hstem'
    obtain ⟨d, hd⟩ := h.names hj
    obtain ⟨d', hd'⟩ := h.names hj'
    exact Job.sameFolder_iff hplain hd hplain' hd' h.several hstem hstem'
  case files =>
    intro j hj j' hj' hplain hplain'
    obtain ⟨d, hd⟩ := h.names hj
    obtain ⟨d', hd'⟩ := h.names hj'
    exact Job.sameFile_iff hplain hd hplain' hd'
  case own =>
    intro hnamed hnodup htop
    exact ⟨fun j hj j' hj' => h.log_eq hnamed hnodup htop hj hj',
      fun j hj => h.holds hnamed hnodup htop hj⟩

/-- Logs in two directories, with stems of their own. -/
theorem files_of_logs_two_stems :
    let a := twoLogs "a/run.log" "b/walk.log"
    let σ := twoDirectories "a/run.log" "b/walk.log"
    ∃ σ', Ends (run a) σ true σ' ∧ a.has .linear = false ∧ a.outputDir = some "out" ∧
      2 ≤ a.logs.length ∧ FilesLeft a "out" σ σ' ∧
      (a.logs.map Path.fileStem?).Nodup ∧ σ'.volume.place "out" = .ok ["out"] ∧
      ∀ j ∈ jobs a (maps a σ), Holds σ σ'.volume "out" 2 j j := by
  intro a σ
  obtain ⟨σ', hrun, hvolume⟩ : ∃ σ', Ends (run a) σ true σ' ∧
      σ'.volume = bothTabled "a/run.log" "b/walk.log" :=
    ends_run (by decide +kernel) (by decide +kernel) (by decide +kernel) (by decide +kernel)
      (by decide +kernel)
  have hstems : (a.logs.map Path.fileStem?).Nodup := by decide +kernel
  have hplace : σ'.volume.place "out" = .ok ["out"] := by
    rw [hvolume]
    decide +kernel
  have hleft : FilesLeft a "out" σ σ' := files_of_logs hrun rfl rfl (Nat.le_refl 2)
  refine ⟨σ', hrun, rfl, rfl, Nat.le_refl 2, hleft, hstems, hplace, ?_⟩
  refine (hleft.own (hleft.wellNamed rfl) hstems fun htop => ?_).2
  rw [hplace] at htop
  cases htop

/-- Logs in two directories with one stem: the functions of both go into one directory, where that
of the second log takes the place of that of the first. -/
theorem files_of_one_stem :
    let a := twoLogs "a/run.log" "b/run.log"
    let σ := twoDirectories "a/run.log" "b/run.log"
    ∃ σ', Ends (run a) σ true σ' ∧ a.logs.Nodup ∧
      ∃ j ∈ jobs a (maps a σ), ∃ j' ∈ jobs a (maps a σ), j.log ≠ j'.log ∧
        j.SameFolder σ'.volume "out" 2 j' ∧ j.SameFile σ'.volume "out" 2 j' ∧
        Holds σ σ'.volume "out" 2 j j' ∧ ¬Holds σ σ'.volume "out" 2 j j := by
  intro a σ
  have hlog : σ.volume.file? "a/run.log" = some (TraceFile.oneStep, 0) := by decide +kernel
  have hlog' : σ.volume.file? "b/run.log" = some (laterStep, 0) := by decide +kernel
  have hcan : CanTable (tabled σ.volume (logDir "out" "a/run.log" 2) "loc_10000S" 0 oneStepMap)
      (logDir "out" "b/run.log" 2) "loc_10000S" 0 laterStepMap := by decide +kernel
  obtain ⟨σ', hrun, hvolume⟩ : ∃ σ', Ends (run a) σ true σ' ∧
      σ'.volume = bothTabled "a/run.log" "b/run.log" :=
    ends_run (by decide +kernel) hlog hlog' (by decide +kernel) hcan
  have hmaps : maps a σ = [("a/run.log", oneStepMap), ("b/run.log", laterStepMap)] :=
    maps_twoLogs hlog hlog'
  have hentry : oneStepMap.functions.get? "loc_10000S" = some 0 ∧
      laterStepMap.functions.get? "loc_10000S" = some 0 := by decide +kernel
  have hfile : (tableJob "a/run.log" oneStepMap).file "out" 2 =
      (tableJob "b/run.log" laterStepMap).file "out" 2 := by
    have hdir : logDir "out" "a/run.log" 2 = logDir "out" "b/run.log" 2 := by decide +kernel
    show Sheet.File.path _ _ _ = Sheet.File.path _ _ _
    rw [tableJob, tableJob, hdir]
  obtain ⟨t, hheld⟩ : ∃ t, σ'.volume.file? ((tableJob "a/run.log" oneStepMap).file "out" 2) =
      some (Utf8.encode (laterStepMap.sheet .csv "loc_10000S" 0), t) := by
    rw [hvolume, hfile]
    exact ⟨_, file?_write (write_eq_written hcan.2)⟩
  refine ⟨σ', hrun, by decide, tableJob "a/run.log" oneStepMap, ?_,
    tableJob "b/run.log" laterStepMap, ?_, by decide, ?_, ?_, ⟨_, t, rfl, hheld⟩, ?_⟩
  · rw [mem_jobs_iff, hmaps]
    exact ⟨List.mem_cons_self, by decide, hentry.1⟩
  · rw [mem_jobs_iff, hmaps]
    exact ⟨List.mem_cons_of_mem _ List.mem_cons_self, by decide, hentry.2⟩
  · exact congrArg σ'.volume.folder hfile
  · exact congrArg σ'.volume.spot? hfile
  · rintro ⟨bytes, t', hbytes, hown⟩
    obtain rfl := Option.some.inj hbytes
    rw [hheld, Option.some.injEq, Prod.mk.injEq] at hown
    exact sheet_ne (Utf8.encode_injective hown.1).symm

end TraceFlow.Command
