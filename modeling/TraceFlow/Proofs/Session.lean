/-
TraceFlow.Proofs.Session — programs run in a session.

Programs ask a host for files, notes and output. A session is a host that is
a value: the files, what was noted, what was printed, and a layout tool.

`Gives x v a v'` is a statement about the files alone: run where they are
`v`, the program `x` gives `a` and leaves the files `v'`, whatever was noted
and printed before. It determines both the result and the files, so a
program can be followed from request to request. There is one lemma for each
request to the host, and `Gives.bind` puts them together.

A change of the files may fail, and then nothing has changed
(`changing_of_error`). `gives_changing` covers both outcomes of every such
request at once, and `written` names the files after an attempt to write, so
a program that goes on after a failure need not be split there.
-/
import TraceFlow.Proofs.Volume
import TraceFlow.Session

namespace TraceFlow.Session

variable {α β : Type} {v v' v'' : Volume} {path : String} {bytes : List UInt8} {a : α} {b : β}
  {t : Int}

/-- The program gives `a` and turns the files `v` into `v'`. -/
def Gives (x : StateM Session α) (v : Volume) (a : α) (v' : Volume) : Prop :=
  ∀ s : Session, s.volume = v → (x s).1 = a ∧ (x s).2.volume = v'

theorem Gives.pure (a : α) (v : Volume) : Gives (pure a) v a v := fun _ hs => ⟨rfl, hs⟩

/-- One program after the other, with the files that the first one leaves. -/
theorem Gives.bind {x : StateM Session α} {f : α → StateM Session β} (h : Gives x v a v')
    (h' : Gives (f a) v' b v'') : Gives (x >>= f) v b v'' := by
  intro s hs
  obtain ⟨ha, hv⟩ := h s hs
  have hf := h' (x s).2 hv
  rwa [← ha] at hf

theorem gives_note (n : Note) (v : Volume) : Gives (Host.note n) v () v := fun _ hs => ⟨rfl, hs⟩

theorem gives_print (text : String) (v : Volume) : Gives (Host.print text) v () v :=
  fun _ hs => ⟨rfl, hs⟩

theorem gives_noteAll (notes : List Note) (v : Volume) : Gives (Host.noteAll notes) v () v := by
  induction notes with
  | nil => exact .pure () v
  | cons n notes ih => exact (gives_note n v).bind ih

theorem gives_read (path : String) (v : Volume) : Gives (Host.read path) v (reading v path) v := by
  rintro s rfl
  exact ⟨rfl, rfl⟩

theorem gives_modified? (path : String) (v : Volume) :
    Gives (Host.modified? path) v (v.modified? path) v := by
  rintro s rfl
  exact ⟨rfl, rfl⟩

theorem changing_of_ok {f : Volume → Except FileError Volume} {s : Session}
    (h : f s.volume = .ok v) :
    changing f s = (.ok (), { s with volume := v }) := by
  simp [changing, modifyGet, MonadStateOf.modifyGet, StateT.modifyGet, h, Pure.pure]

theorem changing_of_error {f : Volume → Except FileError Volume} {s : Session} {e : FileError}
    (h : f s.volume = .error e) : changing f s = (.error e, s) := by
  simp [changing, modifyGet, MonadStateOf.modifyGet, StateT.modifyGet, h, Pure.pure]

/-- A change of the files happens, or the files stay. -/
theorem gives_changing {f : Volume → Except FileError Volume} (hok : ∀ w, f v = .ok w → v' = w)
    (herror : ∀ e, f v = .error e → v' = v) :
    Gives (changing f) v ((f v).map fun _ => ()) v' := by
  rintro s rfl
  cases hresult : f s.volume with
  | ok w =>
    rw [changing_of_ok hresult, hok w hresult]
    exact ⟨rfl, rfl⟩
  | error e =>
    rw [changing_of_error hresult, herror e hresult]
    exact ⟨rfl, rfl⟩

/-- The volume after a file was written, or not if that cannot be done. -/
def written (v : Volume) (path : String) (bytes : List UInt8) : Volume :=
  match v.write path bytes with
  | .ok v' => v'
  | .error _ => v

theorem write_eq_written (h : (v.write path bytes).isOk) :
    v.write path bytes = .ok (written v path bytes) := by
  unfold written
  cases hwrite : v.write path bytes with
  | ok v' => rfl
  | error e =>
    rw [hwrite] at h
    cases h

/-- To write a file gives what the volume says, and leaves it written or as it was. -/
theorem gives_write (path : String) (bytes : List UInt8) (v : Volume) :
    Gives (Host.write path bytes) v ((v.write path bytes).map fun _ => ())
      (written v path bytes) :=
  gives_changing (fun _ h => by rw [written, h]) fun _ h => by rw [written, h]

/-! ## What is read of a file -/

/-- What is read of a path is what a file there holds. -/
theorem reading_eq_bytes_iff :
    reading v path = .bytes bytes ↔ ∃ t, v.file? path = some (bytes, t) := by
  unfold reading Volume.content Volume.file?
  cases v.find path with
  | error e => exact ⟨nofun, nofun⟩
  | ok n =>
    cases n with
    | directory t => exact ⟨nofun, nofun⟩
    | file c t =>
      constructor
      · intro h
        cases h
        exact ⟨t, rfl⟩
      · rintro ⟨t', h⟩
        cases h
        rfl

theorem modified?_of_file? (h : v.file? path = some (bytes, t)) : v.modified? path = some t := by
  rw [Volume.modified?, Volume.find_of_file? h]
  rfl

end TraceFlow.Session
