/-
TraceFlow.Proofs.Command.Writing — the files that a run writes.

A `Job` is one file to be written: a function of a log in one kind. `jobs`
lists them in the order in which a run writes them: log by log, kind by
kind, function by function. The list is a pure function of the command
line and the maps, so what is proved about it needs no session.

`Ran` says that the jobs of a list were done, with directories made in
between: it is a run of writes (`Written`) in which the layout tool stays,
on which the contents of layouts depend. Two such runs in a row are one
(`Ran.append`), and whatever only makes directories or prints is the run of
no job (`Ran.of_grew`).

Every program that writes is then shown to do its own jobs, the longer
ones from those that they consist of:

* `ran_writeFrom`: the functions of a log in one form. The induction is
  on the functions, as the program goes.
* `ran_writeForms`, `ran_writeLayouts`: all forms of a log, and all of its
  layouts. A layout is first drawn by the tool (`run_drawn`), whose result
  is what the job is to hold.
* `ran_writeFiles`: all kinds of one log.
* `ran_writeAll`: all logs.
-/
import TraceFlow.Command.Run
import TraceFlow.Proofs.Session.Endings

namespace TraceFlow.Command

open Session Volume

variable {a : Arguments} {dir log : String} {count : Nat} {map : FunctionMap}
  {σ σ' σ'' : Session} {same : Bool}

/-! ## Jobs -/

inductive Kind where
  /-- The function in one of the forms. -/
  | sheet (form : Format)
  /-- The function as it is laid out. -/
  | layout
deriving DecidableEq, Repr

namespace Kind

def extension : Kind → String
  | .sheet form => form.extension
  | .layout => "svg"

theorem extension_injective : Function.Injective extension := by
  intro kind kind' h
  rcases kind with ⟨_ | _ | _ | _⟩ | _ <;> rcases kind' with ⟨_ | _ | _ | _⟩ | _ <;>
    first | rfl | exact absurd h (by decide)

theorem dot_not_mem_extension (kind : Kind) : '.' ∉ kind.extension.toList := by
  rcases kind with ⟨_ | _ | _ | _⟩ | _ <;> decide

theorem slash_not_mem_extension (kind : Kind) : '/' ∉ kind.extension.toList := by
  rcases kind with ⟨_ | _ | _ | _⟩ | _ <;> decide

end Kind

/-- The kinds of files that a command line asks for, in the order in which they are written. -/
def kinds (a : Arguments) : List Kind :=
  ((forms.filter fun e => a.has e.1).map fun e => .sheet e.2) ++
    if a.has .svg then [.layout] else []

/-- What the layout tool makes of a drawing. -/
def laidOut (tool : List UInt8 → Except Failure LayoutRun) (drawing : String) :
    Except Failure String :=
  match tool (Utf8.encode drawing) with
  | .error e => .error e
  | .ok run =>
    match run.result with
    | .ok text => .ok text
    | .error e => .error (.layout e)

structure Job where
  log : String
  map : FunctionMap
  kind : Kind
  function : String
  entry : BlockId

namespace Job

/-- The path of the file, where there are files of `count` logs. -/
def file (dir : String) (count : Nat) (j : Job) : String :=
  Sheet.File.path (logDir dir j.log count) j.function j.kind.extension

/-- What the file is to hold: the function as its own log has it. -/
def content? (tool : List UInt8 → Except Failure LayoutRun) (j : Job) : Option (List UInt8) :=
  match j.kind with
  | .sheet form => some (Utf8.encode (j.map.sheet form j.function j.entry))
  | .layout => (laidOut tool (j.map.sheet .dot j.function j.entry)).toOption.map Utf8.encode

end Job

/-- The jobs that write some functions of a log in one kind. -/
def jobsFor (log : String) (map : FunctionMap) (functions : List (String × BlockId))
    (kind : Kind) : List Job :=
  functions.map fun e => ⟨log, map, kind, e.1, e.2⟩

/-- The jobs of a run, in order. -/
def jobs (a : Arguments) (maps : List (String × FunctionMap)) : List Job :=
  maps.flatMap fun e => (kinds a).flatMap (jobsFor e.1 e.2 e.2.functions.entries)

/-- A job is a function of a map, in a kind that was asked for. -/
theorem mem_jobs_iff {maps : List (String × FunctionMap)} {j : Job} :
    j ∈ jobs a maps ↔
      (j.log, j.map) ∈ maps ∧ j.kind ∈ kinds a ∧
        j.map.functions.get? j.function = some j.entry := by
  simp only [jobs, jobsFor, List.mem_flatMap, List.mem_map]
  constructor
  · rintro ⟨e, he, kind, hkind, f, hf, rfl⟩
    exact ⟨he, hkind, SortedMap.mem_entries_iff.1 hf⟩
  · rintro ⟨he, hkind, hf⟩
    exact ⟨_, he, _, hkind, _, SortedMap.mem_entries_iff.2 hf, rfl⟩

/-! ## Jobs that are done -/

/-- From one session to the other, the jobs are done, and the layout tool stays. -/
structure Ran (dir : String) (count : Nat) (js : List Job) (σ σ' : Session) : Prop where
  tool : σ'.tool = σ.tool
  written : Written (Job.file dir count) (Job.content? σ.tool) σ.volume js σ'.volume

namespace Ran

variable {js js' : List Job} {j : Job}

theorem of_grew (h : Grew σ σ') : Ran dir count [] σ σ' := ⟨h.tool, .grow h.volume (.nil _)⟩

theorem refl (σ : Session) : Ran dir count [] σ σ := .of_grew (Std.Refl.refl σ)

/-- Jobs that are done one after another are done. -/
theorem append (h : Ran dir count js σ σ') (h' : Ran dir count js' σ' σ'') :
    Ran dir count (js ++ js') σ σ'' where
  tool := h'.tool.trans h.tool
  written := h.written.append (h.tool ▸ h'.written)

/-- A file that is written with the right bytes is a job that is done. -/
theorem of_write {bytes : List UInt8} (hcontent : j.content? σ.tool = some bytes)
    (h : (Host.write (j.file dir count) bytes : StateM Session _) σ = (.ok (), σ')) :
    Ran dir count [j] σ σ' := by
  obtain ⟨htool, hwrite⟩ := run_write h
  exact ⟨htool, .write hcontent hwrite (.nil _)⟩

end Ran

/-! ## Programs that write -/

theorem ran_noteWritten {n : Nat} {kind path : String}
    (h : (noteWritten n kind path : StateM Session _) σ = ((), σ')) : Ran dir count [] σ σ' :=
  .of_grew ((grew_note _).of_run h)

/-- The functions of a log in one form, one file each. -/
theorem ran_writeFrom {form : Format} {functions : List (String × BlockId)} {files : List String}
    (h : (Sheet.File.writeFrom map form (logDir dir log count) functions : StateM Session _) σ =
      (.ok files, σ')) :
    Ran dir count (jobsFor log map functions (.sheet form)) σ σ' := by
  induction functions generalizing σ files with
  | nil =>
    cases h
    exact .refl _
  | cons e rest ih =>
    obtain ⟨written, σ₁, hwrite, h⟩ := run_bind_iff.1 h
    cases written with
    | error e => cases congrArg Prod.fst h
    | ok _ =>
      obtain ⟨_, σ₂, hnote, h⟩ := run_bind_iff.1 h
      obtain ⟨others, σ₃, hrest, h⟩ := run_bind_iff.1 h
      cases others with
      | error e => cases congrArg Prod.fst h
      | ok _ =>
        obtain rfl : σ₃ = σ' := congrArg Prod.snd h
        have hfirst : Ran dir count [⟨log, map, .sheet form, e.1, e.2⟩] σ σ₁ :=
          .of_write rfl hwrite
        have hnoted : Ran dir count [] σ₁ σ₂ := .of_grew ((grew_note _).of_run hnote)
        exact hfirst.append (hnoted.append (ih hrest))

/-- A log in all forms that were asked for. -/
theorem ran_writeForms {wanted : List Format}
    (h : (writeForms map (logDir dir log count) wanted : StateM Session _) σ = (.ok (), σ')) :
    Ran dir count
      ((wanted.map .sheet).flatMap (jobsFor log map map.functions.entries)) σ σ' := by
  induction wanted generalizing σ with
  | nil =>
    cases h
    exact .refl _
  | cons form wanted ih =>
    obtain ⟨files, σ₁, hwrite, h⟩ := run_bind_iff.1 h
    cases files with
    | error e => cases congrArg Prod.fst h
    | ok files =>
      obtain ⟨_, σ₂, hnote, h⟩ := run_bind_iff.1 h
      exact (ran_writeFrom hwrite).append ((ran_noteWritten hnote).append (ih h))

/-- A drawing is what the layout tool makes of it, and the tool stays. -/
theorem run_drawn {drawing : String} {drawn : Except Failure String}
    (h : (Host.drawn drawing : StateM Session _) σ = (drawn, σ')) :
    drawn = laidOut σ.tool drawing ∧ σ' = σ := by
  obtain ⟨made, σ₁, hlayout, h⟩ := run_bind_iff.1 h
  obtain ⟨rfl, rfl⟩ : σ.tool (Utf8.encode drawing) = made ∧ σ = σ₁ := Prod.mk.inj hlayout
  unfold laidOut
  cases hmade : σ.tool (Utf8.encode drawing) with
  | error e =>
    rw [hmade] at h
    cases h
    exact ⟨rfl, rfl⟩
  | ok run =>
    rw [hmade] at h
    dsimp only at h ⊢
    cases hresult : run.result <;>
      · rw [hresult] at h
        cases h
        exact ⟨rfl, rfl⟩

/-- The layouts of a log, one file each. -/
theorem ran_writeLayouts {functions : List (String × BlockId)}
    (h : Ends (writeLayouts map (logDir dir log count) functions) σ () σ') :
    Ran dir count (jobsFor log map functions .layout) σ σ' := by
  induction functions generalizing σ with
  | nil =>
    obtain ⟨-, rfl⟩ := ends_pure_iff.1 h
    exact .refl _
  | cons e rest ih =>
    obtain ⟨drawn, σ₁, hdrawn, h⟩ := ends_bind_iff.1 h
    obtain ⟨hlaidOut, rfl⟩ := run_drawn (ends_liftM_iff.1 hdrawn)
    cases drawn with
    | error e => exact absurd h (not_ends_throw _)
    | ok drawing =>
      obtain ⟨written, σ₂, hwrite, h⟩ := ends_bind_iff.1 h
      cases written with
      | error e => exact absurd h (not_ends_throw _)
      | ok _ =>
        have hcontent : Job.content? σ₁.tool ⟨log, map, .layout, e.1, e.2⟩ =
            some (Utf8.encode drawing) := by
          rw [Job.content?, ← hlaidOut]
          rfl
        have hfirst : Ran dir count [⟨log, map, .layout, e.1, e.2⟩] σ₁ σ₂ :=
          .of_write hcontent (ends_liftM_iff.1 hwrite)
        exact hfirst.append (ih h)

/-- The files of one log are written. -/
theorem ran_writeFiles (h : Ends (writeFiles a map (logDir dir log count)) σ () σ') :
    Ran dir count ((kinds a).flatMap (jobsFor log map map.functions.entries)) σ σ' := by
  obtain ⟨made, σ₁, hmake, h⟩ := ends_bind_iff.1 h
  have hmade : Ran dir count [] σ σ₁ :=
    .of_grew ((grew_makeDirectoriesIn _ _).of_run (ends_liftM_iff.1 hmake))
  cases made with
  | error e => exact absurd h not_ends_throw_bind
  | ok _ =>
    obtain ⟨written, σ₂, hwrite, h⟩ := ends_bind_iff.1 h
    cases written with
    | error e => exact absurd h not_ends_throw_bind
    | ok _ =>
      have hforms := ran_writeForms (ends_liftM_iff.1 hwrite)
      rw [List.map_map] at hforms
      unfold kinds
      rw [List.flatMap_append]
      refine hmade.append (hforms.append ?_)
      dsimp only at h
      split at h
      · rename_i hsvg
        obtain ⟨_, σ₃, hlayouts, h⟩ := ends_bind_iff.1 h
        have hnoted : Ran dir count [] σ₃ σ' := ran_noteWritten (ends_liftM_iff.1 h)
        rw [if_pos hsvg, List.flatMap_singleton]
        simpa using (ran_writeLayouts hlayouts).append hnoted
      · rename_i hsvg
        obtain ⟨-, rfl⟩ := ends_pure_iff.1 h
        rw [if_neg hsvg]
        exact .refl _

/-- The files of all logs are written. -/
theorem ran_writeAll {maps : List (String × FunctionMap)}
    (h : Ends (writeAll a dir count maps) σ () σ') : Ran dir count (jobs a maps) σ σ' := by
  induction maps generalizing σ with
  | nil =>
    obtain ⟨-, rfl⟩ := ends_pure_iff.1 h
    exact .refl _
  | cons e rest ih =>
    obtain ⟨_, σ₁, hfirst, h⟩ := ends_bind_iff.1 h
    exact (ran_writeFiles (ends_tryCatch_throw_iff.1 hfirst)).append (ih h)

end TraceFlow.Command
