/-
TraceFlow.Proofs.TraceFile — when the archive of a trace speaks for it.

A build takes the functions of a trace from its archive if that is fresh
and can be read, and follows the trace otherwise. The archive should make
no difference to the result.

* `gives_build`: what a build gives (`given`), and which files it leaves
  (`filesBuilt`), as functions of the volume. They are put together from
  one statement for each program that a build consists of.
* `Step` is what happens to a trace file: time passes, the file is
  rewritten, its functions are built with the archive or without.
* `Current` is the invariant of a run: the archive of a trace, if it is not
  older than the trace or was written just now, holds the trace's map. Of
  a current archive a build gives what following the trace gives
  (`Current.given_eq`).
* `Current.step` is the step, `Current.run` the run. When time passes the
  archive is no longer written just now, and when the trace is rewritten
  it becomes the older one (`Current.rewrite`). A build keeps the present
  map (`Current.filesBuilt`).
* A trace that is rewritten while its archive is stamped with the present
  time breaks the invariant: both files then have one time, and the archive
  counts as fresh (`Current.given_written`). `Timely` says that this does
  not happen.

`archive_transparent` is the main statement, in both directions: no build
of a timely run can be told from one without the archive, and after an
untimely rewriting it gives the functions of the earlier trace. That is so
of a given file in `archive_outdated`.
-/
import TraceFlow.Proofs.Archive.Built
import TraceFlow.Proofs.Session
import TraceFlow.TraceFile

namespace TraceFlow

open Volume Session

/-! ## The archive beside a trace -/

/-- The archive of a trace has another name than the trace. -/
theorem Archive.nameOf_path_ne {trace : String} (h : isName (nameOf trace)) :
    nameOf (path trace) ≠ nameOf trace := by
  have hslash : '/' ∉ (nameOf trace ++ suffix).toList := by
    rw [String.toList_append, List.mem_append, not_or]
    exact ⟨slash_not_mem_nameOf trace, by decide⟩
  have hlast : (nameOf (path trace)).toList = (nameOf trace).toList ++ suffix.toList := by
    rw [toList_nameOf, path, fileName?_of_isName h, Option.getD_some,
      Path.lastPart_withFileName trace hslash, String.toList_append]
  intro heq
  rw [heq] at hlast
  have hsuffix : suffix.toList = [] := List.self_eq_append_right.1 hlast
  exact absurd hsuffix (by decide)

/-! ## What a build does -/

namespace TraceFile

variable {cpu : Cpu} {trace : String} {v v' : Volume} {σ : Session} {bytes c : List UInt8}
  {map : FunctionMap} {t a : Int}

/-- The map that the archive of a trace gives, if it is fresh and can be read. -/
def archivedMap (v : Volume) (trace : String) : Option FunctionMap :=
  if Archive.isFresh (v.modified? trace) (v.modified? (Archive.path trace)) then
    match reading v (Archive.path trace) with
    | .bytes c => (Archive.read? c).toOption
    | _ => none
  else none

def followed (cpu : Cpu) (v : Volume) (trace : String) : Except Failure FunctionMap :=
  match (reading v trace).toExcept with
  | .ok bytes => .ok (FunctionMap.ofTrace cpu.setup bytes)
  | .error e => .error (.file e)

def kept (v : Volume) (trace : String) (map : FunctionMap) : Volume :=
  written v (Archive.path trace) (Utf8.encode (Archive.text map))

theorem gives_load (v : Volume) (trace : String) :
    Gives (Archive.load trace) v (archivedMap v trace) v := by
  refine (gives_modified? trace v).bind ((gives_modified? _ v).bind ?_)
  unfold archivedMap
  split
  · refine (gives_read _ v).bind ?_
    cases reading v (Archive.path trace) with
    | closed e => exact .pure none v
    | unreadable e => exact (gives_note _ v).bind (.pure none v)
    | bytes c =>
      dsimp only
      cases Archive.read? c with
      | ok map => exact .pure (some map) v
      | error misfit => exact (gives_note _ v).bind (.pure none v)
  · exact .pure none v

/-- Following a trace gives its functions, and leaves the files. -/
theorem gives_follow (cpu : Cpu) (bytes : List UInt8) (v : Volume) :
    Gives (follow cpu bytes) v (FunctionMap.ofTrace cpu.setup bytes) v := by
  rw [← FunctionMap.fst_noting]
  exact (gives_noteAll _ v).bind (.pure _ v)

/-- A map is stored in the archive of the trace, if that can be written. -/
theorem gives_store (v : Volume) (trace : String) (map : FunctionMap) :
    ∃ stored, Gives (Archive.store trace map) v stored (kept v trace map) := by
  have hwrite := gives_write (Archive.path trace) (Utf8.encode (Archive.text map)) v
  cases hresult : v.write (Archive.path trace) (Utf8.encode (Archive.text map)) with
  | ok v' =>
    rw [hresult] at hwrite
    exact ⟨.ok (Archive.path trace), hwrite.bind (.pure _ _)⟩
  | error e =>
    rw [hresult] at hwrite
    exact ⟨.error (.file e), hwrite.bind (.pure _ _)⟩

theorem gives_keep (v : Volume) (trace : String) (map : FunctionMap) :
    Gives (keep trace map) v () (kept v trace map) := by
  obtain ⟨stored, hstore⟩ := gives_store v trace map
  refine hstore.bind ?_
  cases stored with
  | ok archive => exact gives_note _ _
  | error e => exact gives_note _ _

def filesFollowed (cpu : Cpu) (archived : Bool) (v : Volume) (trace : String) : Volume :=
  match followed cpu v trace with
  | .ok map => if archived then kept v trace map else v
  | .error _ => v

/-- A trace that is followed anew has its map kept, if there is to be an archive. -/
theorem gives_rebuild (cpu : Cpu) (archived : Bool) (v : Volume) (trace : String) :
    Gives (rebuild cpu archived trace) v (followed cpu v trace)
      (filesFollowed cpu archived v trace) := by
  refine (gives_read trace v).bind ?_
  unfold filesFollowed followed
  cases (reading v trace).toExcept with
  | error e => exact .pure _ v
  | ok bytes =>
    refine (gives_follow cpu bytes v).bind ?_
    cases archived with
    | true => exact (gives_keep v trace _).bind (.pure _ _)
    | false => exact .pure _ v

def given (cpu : Cpu) (archived : Bool) (v : Volume) (trace : String) :
    Except Failure FunctionMap :=
  match archived, archivedMap v trace with
  | true, some map => .ok map
  | _, _ => followed cpu v trace

/-- A fresh archive that can be read is what a build gives. -/
theorem given_of_some (cpu : Cpu) (h : archivedMap v trace = some map) :
    given cpu true v trace = .ok map := by
  unfold given
  rw [h]

def filesBuilt (cpu : Cpu) (archived : Bool) (v : Volume) (trace : String) : Volume :=
  match archived, archivedMap v trace with
  | true, some _ => v
  | _, _ => filesFollowed cpu archived v trace

/-- What a build gives, and the files that it leaves. -/
theorem gives_build (cpu : Cpu) (archived : Bool) (v : Volume) (trace : String) :
    Gives (build cpu archived trace) v (given cpu archived v trace)
      (filesBuilt cpu archived v trace) := by
  unfold build given filesBuilt
  cases archived with
  | false => exact gives_rebuild cpu false v trace
  | true =>
    refine (gives_load v trace).bind ?_
    cases archivedMap v trace with
    | some map => exact (gives_note _ v).bind (.pure _ v)
    | none => exact gives_rebuild cpu true v trace

/-- A map is taken from an archive that is not older than the trace. -/
theorem archivedMap_eq_some (h : archivedMap v trace = some map) :
    ∃ c a t, v.file? (Archive.path trace) = some (c, a) ∧ v.modified? trace = some t ∧ t ≤ a ∧
      Archive.read? c = .ok map := by
  unfold archivedMap at h
  split at h
  · rename_i hfresh
    split at h
    · rename_i c hread
      obtain ⟨a, hfile⟩ := reading_eq_bytes_iff.1 hread
      rw [modified?_of_file? hfile] at hfresh
      cases ht : v.modified? trace with
      | none => simp [Archive.isFresh, ht] at hfresh
      | some t =>
        refine ⟨c, a, t, hfile, rfl, ?_, ?_⟩
        · simpa [Archive.isFresh, ht] using hfresh
        · cases hmap : Archive.read? c with
          | ok map' => rw [hmap] at h; exact congrArg _ (Option.some.inj h)
          | error misfit => rw [hmap] at h; cases h
    · cases h
  · cases h

/-- An archive that is not older than its trace is read. -/
theorem archivedMap_of_file? (harchive : v.file? (Archive.path trace) = some (c, a))
    (htrace : v.file? trace = some (bytes, t)) (hle : t ≤ a) (hread : Archive.read? c = .ok map) :
    archivedMap v trace = some map := by
  rw [archivedMap, modified?_of_file? harchive, modified?_of_file? htrace,
    reading_eq_bytes_iff.2 ⟨a, harchive⟩]
  simp [Archive.isFresh, hle, hread, Except.toOption]

/-- A trace that can be read is followed. -/
theorem given_of_file? (cpu : Cpu) (htrace : v.file? trace = some (bytes, t)) :
    given cpu false v trace = .ok (FunctionMap.ofTrace cpu.setup bytes) := by
  show followed cpu v trace = _
  rw [followed, reading_eq_bytes_iff.2 ⟨t, htrace⟩]
  rfl

theorem followed_eq_ok (h : followed cpu v trace = .ok map) :
    ∃ bytes t, v.file? trace = some (bytes, t) ∧ map = FunctionMap.ofTrace cpu.setup bytes := by
  unfold followed at h
  cases hread : reading v trace with
  | closed e => rw [hread] at h; cases h
  | unreadable e => rw [hread] at h; cases h
  | bytes c =>
    rw [hread] at h
    obtain ⟨t, htrace⟩ := reading_eq_bytes_iff.1 hread
    exact ⟨c, t, htrace, (Except.ok.inj h).symm⟩

/-! ## What happens to a trace file -/

/-- What may happen to a trace file. -/
inductive Step where
  | pass (ticks : Nat)
  | rewrite (bytes : List UInt8)
  /-- Its functions are built, with its archive or without. -/
  | build (archived : Bool)
deriving DecidableEq

namespace Step

def run (cpu : Cpu) (trace : String) (σ : Session) : Step → Session
  | .pass ticks => { σ with volume := σ.volume.later ticks }
  | .rewrite bytes => ((Host.write trace bytes : StateM Session _) σ).2
  | .build archived => ((TraceFile.build cpu archived trace : StateM Session _) σ).2

def files (cpu : Cpu) (trace : String) (v : Volume) : Step → Volume
  | .pass ticks => v.later ticks
  | .rewrite bytes => written v trace bytes
  | .build archived => filesBuilt cpu archived v trace

/-- A step changes the files of a session as `files` has it. -/
theorem volume_run (cpu : Cpu) (trace : String) (σ : Session) (step : Step) :
    (step.run cpu trace σ).volume = step.files cpu trace σ.volume := by
  cases step with
  | pass ticks => rfl
  | rewrite bytes => exact (gives_write trace bytes σ.volume σ rfl).2
  | build archived => exact (gives_build cpu archived σ.volume trace σ rfl).2

def runAll (cpu : Cpu) (trace : String) (σ : Session) (steps : List Step) : Session :=
  steps.foldl (run cpu trace) σ

theorem volume_runAll (cpu : Cpu) (trace : String) (σ : Session) (steps : List Step) :
    (runAll cpu trace σ steps).volume = steps.foldl (files cpu trace) σ.volume := by
  induction steps generalizing σ with
  | nil => rfl
  | cons step steps ih =>
    rw [List.foldl_cons, ← volume_run]
    exact ih _

/-- The bytes that a step writes to the trace. -/
def written? : Step → Option (List UInt8)
  | .rewrite bytes => some bytes
  | .pass _ => none
  | .build _ => none

end Step

def built (cpu : Cpu) (archived : Bool) (trace : String) (σ : Session) :
    Except Failure FunctionMap :=
  ((build cpu archived trace : StateM Session _) σ).1

/-- The archive was written just now. -/
def JustArchived (trace : String) (v : Volume) : Prop :=
  (v.file? (Archive.path trace)).map Prod.snd = some v.clock

instance (trace : String) (v : Volume) : Decidable (JustArchived trace v) :=
  inferInstanceAs (Decidable (_ = _))

/-- The trace is never rewritten at the very time at which its archive was written. -/
def Timely (cpu : Cpu) (trace : String) : Session → List Step → Prop
  | _, [] => True
  | σ, step :: steps =>
    (step.written?.isSome → ¬JustArchived trace σ.volume) ∧
      Timely cpu trace (step.run cpu trace σ) steps

/-- The map of a trace is read back from its archive as it was. -/
def ReadBack (cpu : Cpu) (bytes : List UInt8) : Prop :=
  Archive.read? (Utf8.encode (Archive.text (FunctionMap.ofTrace cpu.setup bytes))) =
    .ok (FunctionMap.ofTrace cpu.setup bytes)

/-- All that the trace holds in the course of some steps. -/
def contents (trace : String) (v : Volume) (steps : List Step) : List (List UInt8) :=
  ((v.file? trace).map Prod.fst).toList ++ steps.filterMap Step.written?

/-- What a build gives depends on the files alone. -/
theorem built_eq (cpu : Cpu) (archived : Bool) (trace : String) (σ : Session) :
    built cpu archived trace σ = given cpu archived σ.volume trace :=
  (gives_build cpu archived σ.volume trace σ rfl).1

/-! ## The archive is current -/

/-- The archive of a trace holds the map of the trace, if it is not older than the trace or was
written just now. -/
structure Current (cpu : Cpu) (trace : String) (v : Volume) : Prop where
  readBack : ∀ {bytes t}, v.file? trace = some (bytes, t) → ReadBack cpu bytes
  archive : ∀ {c a}, v.file? (Archive.path trace) = some (c, a) → a ≤ v.clock ∧
    ∃ bytes t, v.file? trace = some (bytes, t) ∧
      (t ≤ a ∨ a = v.clock → Archive.read? c = .ok (FunctionMap.ofTrace cpu.setup bytes))

namespace Current

/-- A build through a current archive gives what following the trace gives. -/
theorem given_eq (h : Current cpu trace v) : given cpu true v trace = given cpu false v trace := by
  cases hmap : archivedMap v trace with
  | none =>
    unfold given
    rw [hmap]
  | some map =>
    obtain ⟨c, a, t, harchive, htime, hle, hread⟩ := archivedMap_eq_some hmap
    obtain ⟨-, bytes, t', htrace, hcurrent⟩ := h.archive harchive
    obtain rfl : t' = t := Option.some.inj ((modified?_of_file? htrace).symm.trans htime)
    rw [hcurrent (.inl hle)] at hread
    obtain rfl := Except.ok.inj hread
    exact (given_of_some cpu hmap).trans (given_of_file? cpu htrace).symm

/-- Time that passes keeps the archive current. -/
theorem later (h : Current cpu trace v) (ticks : Nat) : Current cpu trace (v.later ticks) := by
  refine ⟨fun {bytes t} htrace => ?_, fun {c a} harchive => ?_⟩
  · rw [file?_later] at htrace
    exact h.readBack htrace
  · rw [file?_later] at harchive ⊢
    obtain ⟨hle, bytes, t, htrace, hcurrent⟩ := h.archive harchive
    have hclock : (v.later ticks).clock = v.clock + ticks := rfl
    refine ⟨by omega, bytes, t, htrace, fun hwhen => hcurrent ?_⟩
    omega

/-- Rewriting a trace leaves its archive behind, unless that was written just now. -/
theorem rewrite (h : Current cpu trace v) (hread : ReadBack cpu bytes)
    (htimely : ¬JustArchived trace v) (hwrite : v.write trace bytes = .ok v') :
    Current cpu trace v' := by
  obtain ⟨dir, hnames, -⟩ := write_eq_ok hwrite
  have htrace := file?_write hwrite
  have harchive' := file?_write_of_ne hwrite (Archive.nameOf_path_ne hnames.name)
  refine ⟨fun {b t} hfile => ?_, fun {c a} harchive => ?_⟩
  · rw [htrace] at hfile
    cases hfile
    exact hread
  · -- the archive is older than the present, so it is older than the trace from now on
    rw [harchive'] at harchive
    have hne : a ≠ v.clock := by
      rintro rfl
      exact htimely (by rw [JustArchived, harchive, Option.map_some])
    have hle := (h.archive harchive).1
    rw [clock_write hwrite]
    exact ⟨hle, bytes, v.clock, htrace, fun hwhen => by omega⟩

/-- Keeping the map of a trace in its archive makes that current. -/
theorem kept (h : Current cpu trace v) (htrace : v.file? trace = some (bytes, t)) :
    Current cpu trace (kept v trace (FunctionMap.ofTrace cpu.setup bytes)) := by
  unfold TraceFile.kept written
  split
  · rename_i v' hwrite
    obtain ⟨dir, hnames, -⟩ := file?_eq_some_iff.1 htrace
    have htrace' := file?_write_of_ne hwrite (Archive.nameOf_path_ne hnames.name).symm
    rw [htrace] at htrace'
    have harchive' := file?_write hwrite
    refine ⟨fun {b t'} hfile => ?_, fun {c a} harchive => ?_⟩
    · rw [htrace'] at hfile
      cases hfile
      exact h.readBack htrace
    · rw [harchive'] at harchive
      cases harchive
      rw [clock_write hwrite]
      exact ⟨Int.le_refl _, bytes, t, htrace', fun _ => h.readBack htrace⟩
  · exact h

/-- A build keeps the archive current. -/
theorem filesBuilt (h : Current cpu trace v) (archived : Bool) :
    Current cpu trace (filesBuilt cpu archived v trace) := by
  have hfollowed : Current cpu trace (filesFollowed cpu archived v trace) := by
    unfold filesFollowed
    split
    · rename_i map hmap
      split
      · obtain ⟨bytes, t, htrace, rfl⟩ := followed_eq_ok hmap
        exact h.kept htrace
      · exact h
    · exact h
  unfold TraceFile.filesBuilt
  split
  · exact h
  · exact hfollowed

end Current

/-- A step keeps the archive current, unless it rewrites the trace at the time of the archive. -/
theorem Current.step (h : Current cpu trace σ.volume) {step : Step}
    (hread : ∀ bytes, step.written? = some bytes → ReadBack cpu bytes)
    (htimely : step.written?.isSome → ¬JustArchived trace σ.volume) :
    Current cpu trace (step.run cpu trace σ).volume := by
  rw [Step.volume_run]
  cases step with
  | pass ticks => exact h.later ticks
  | rewrite bytes =>
    rw [Step.files, written]
    split
    · rename_i v' hwrite
      exact h.rewrite (hread bytes rfl) (htimely rfl) hwrite
    · exact h
  | build archived => exact h.filesBuilt archived

/-- Timely steps keep the archive current. -/
theorem Current.run (h : Current cpu trace σ.volume) {steps : List Step}
    (hread : ∀ bytes ∈ steps.filterMap Step.written?, ReadBack cpu bytes)
    (htimely : Timely cpu trace σ steps) :
    Current cpu trace (Step.runAll cpu trace σ steps).volume := by
  induction steps generalizing σ with
  | nil => exact h
  | cons step steps ih =>
    refine ih (h.step (fun bytes hbytes => ?_) htimely.1) (fun bytes hbytes => ?_) htimely.2
    · exact hread bytes (List.mem_filterMap.2 ⟨step, List.mem_cons_self, hbytes⟩)
    · obtain ⟨step', hstep', hbytes⟩ := List.mem_filterMap.1 hbytes
      exact hread bytes (List.mem_filterMap.2 ⟨step', List.mem_cons_of_mem _ hstep', hbytes⟩)

/-- A trace without an archive has a current one. -/
theorem current_of_none (hnone : v.file? (Archive.path trace) = none)
    (hread : ∀ bytes ∈ ((v.file? trace).map Prod.fst).toList, ReadBack cpu bytes) :
    Current cpu trace v := by
  refine ⟨fun {bytes t} htrace => hread bytes (by simp [htrace]), fun harchive => ?_⟩
  rw [hnone] at harchive
  cases harchive

/-- A trace that is rewritten at the time of its archive is not followed again: the archive still
gives the map of the trace before. -/
theorem Current.given_written (h : Current cpu trace v) (hjust : JustArchived trace v)
    (bytes : List UInt8) :
    given cpu true (written v trace bytes) trace = given cpu false v trace := by
  unfold written
  split
  · rename_i v' hwrite
    obtain ⟨⟨c, a⟩, harchive, rfl⟩ := Option.map_eq_some_iff.1 hjust
    obtain ⟨-, bytes', t, htrace, hcurrent⟩ := h.archive harchive
    obtain ⟨dir, hnames, -⟩ := write_eq_ok hwrite
    have harchive' := file?_write_of_ne hwrite (Archive.nameOf_path_ne hnames.name)
    rw [harchive] at harchive'
    -- both files bear the present time now, so the archive counts as fresh
    have hmap := archivedMap_of_file? harchive' (file?_write hwrite) (Int.le_refl _)
      (hcurrent (.inr rfl))
    exact (given_of_some cpu hmap).trans (given_of_file? cpu htrace).symm
  · exact h.given_eq

/-! ## Runs -/

/-- Builds through the archive are as good as builds without it, as long as the trace is not
rewritten at the very time at which its archive was written; a trace rewritten then goes unnoticed,
and the archive gives what it gave before. -/
theorem archive_transparent (cpu : Cpu) {trace : String} {σ : Session} {steps : List Step}
    (hnone : σ.volume.file? (Archive.path trace) = none)
    (hread : ∀ bytes ∈ contents trace σ.volume steps, ReadBack cpu bytes)
    (htimely : Timely cpu trace σ steps) :
    let σ' := Step.runAll cpu trace σ steps
    built cpu true trace σ' = built cpu false trace σ' ∧
      (JustArchived trace σ'.volume → ∀ bytes,
        built cpu true trace (Step.run cpu trace σ' (.rewrite bytes)) =
          built cpu false trace σ') := by
  intro σ'
  have hfirst : Current cpu trace σ.volume :=
    current_of_none hnone fun bytes hbytes => hread bytes (List.mem_append_left _ hbytes)
  have hcurrent : Current cpu trace σ'.volume :=
    hfirst.run (fun bytes hbytes => hread bytes (List.mem_append_right _ hbytes)) htimely
  simp only [built_eq, Step.volume_run, Step.files]
  exact ⟨hcurrent.given_eq, fun hjust bytes => hcurrent.given_written hjust bytes⟩

def oneStep : List UInt8 := Utf8.encode "PC:1|OPCODE:00\n"

def twoSteps : List UInt8 := Utf8.encode "PC:1|OPCODE:00\nPC:2|OPCODE:00\n"

theorem readBack_oneStep : ReadBack .gameBoy oneStep :=
  (FunctionMap.fits_ofTrace (by decide +kernel) (by decide +kernel) (by decide +kernel)
    (by decide +kernel)).read?_text

theorem readBack_twoSteps : ReadBack .gameBoy twoSteps :=
  (FunctionMap.fits_ofTrace (by decide +kernel) (by decide +kernel) (by decide +kernel)
    (by decide +kernel)).read?_text

/-- A trace in a directory, rewritten a tick after its archive was written, and then at once. -/
theorem archive_transparent_rewritten :
    let trace := "logs/run.log"
    let σ : Session := { volume := { nodes := .ofList [("logs", .directory 0)] } }
    let steps : List Step :=
      [.rewrite oneStep, .build true, .pass 1, .rewrite twoSteps, .build true]
    let σ' := Step.runAll .gameBoy trace σ steps
    σ.volume.file? (Archive.path trace) = none ∧
      (∀ bytes ∈ contents trace σ.volume steps, ReadBack .gameBoy bytes) ∧
      Timely .gameBoy trace σ steps ∧
      built .gameBoy true trace σ' = built .gameBoy false trace σ' ∧
      built .gameBoy true trace (Step.run .gameBoy trace σ' (.rewrite oneStep)) =
        built .gameBoy false trace σ' := by
  intro trace σ steps σ'
  have hnone : σ.volume.file? (Archive.path trace) = none := by decide +kernel
  have hcontents : contents trace σ.volume steps = [oneStep, twoSteps] := by decide +kernel
  have hread : ∀ bytes ∈ contents trace σ.volume steps, ReadBack .gameBoy bytes := by
    rw [hcontents]
    exact List.forall_mem_cons.2
      ⟨readBack_oneStep, List.forall_mem_singleton.2 readBack_twoSteps⟩
  have htimely : Timely .gameBoy trace σ steps := by
    refine ⟨by decide +kernel, nofun, nofun, fun _ => ?_, nofun, trivial⟩
    simp only [Step.volume_run]
    decide +kernel
  have hjust : JustArchived trace σ'.volume := by
    rw [Step.volume_runAll]
    decide +kernel
  have hresult := archive_transparent .gameBoy hnone hread htimely
  exact ⟨hnone, hread, htimely, hresult.1, hresult.2 hjust oneStep⟩

/-- Two traces are written at one time, with a build in between: the archive of the first is taken
for that of the second. -/
theorem archive_outdated :
    let trace := "run.log"
    let σ := Step.runAll .gameBoy trace {} [.rewrite oneStep, .build true, .rewrite twoSteps]
    ReadBack .gameBoy oneStep ∧ ReadBack .gameBoy twoSteps ∧
      built .gameBoy true trace σ = .ok (FunctionMap.ofTrace Cpu.gameBoy.setup oneStep) ∧
      built .gameBoy false trace σ = .ok (FunctionMap.ofTrace Cpu.gameBoy.setup twoSteps) ∧
      built .gameBoy true trace σ ≠ built .gameBoy false trace σ := by
  intro trace σ
  let before := Step.runAll .gameBoy trace {} [.rewrite oneStep, .build true]
  have hnothing : ({} : Session).volume.file? trace = none := by decide +kernel
  have hempty : Current .gameBoy trace ({} : Session).volume :=
    current_of_none (by decide +kernel) (by rw [hnothing]; exact nofun)
  have hcurrent : Current .gameBoy trace before.volume := by
    refine hempty.run ?_ ⟨by decide +kernel, nofun, trivial⟩
    exact fun bytes hbytes => List.mem_singleton.1 hbytes ▸ readBack_oneStep
  have hfiles : JustArchived trace before.volume ∧
      before.volume.file? trace = some (oneStep, 0) := by
    rw [Step.volume_runAll]
    decide +kernel
  have hrewritten : σ.volume = written before.volume trace twoSteps :=
    Step.volume_run .gameBoy trace before (.rewrite twoSteps)
  have harchived : built .gameBoy true trace σ =
      .ok (FunctionMap.ofTrace Cpu.gameBoy.setup oneStep) := by
    rw [built_eq, hrewritten, hcurrent.given_written hfiles.1]
    exact given_of_file? _ hfiles.2
  have hfollowed : built .gameBoy false trace σ =
      .ok (FunctionMap.ofTrace Cpu.gameBoy.setup twoSteps) := by
    rw [built_eq, Step.volume_runAll]
    exact given_of_file? _ (t := 0) (by decide +kernel)
  refine ⟨readBack_oneStep, readBack_twoSteps, harchived, hfollowed, ?_⟩
  rw [harchived, hfollowed, ne_eq, Except.ok.injEq]
  intro heq
  have hlines := congrArg (fun m : FunctionMap => m.tally.lines) heq
  revert hlines
  decide +kernel

end TraceFile

end TraceFlow
