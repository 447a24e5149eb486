/-
TraceFlow.Proofs.Session.Endings — programs that end well in a session.

A program that writes many files may stop at any of them, and the claims are
about runs that did not. So here the end is given, and one asks what must
have happened on the way.

* `Ends x σ a σ'`: begun in `σ`, the program `x` ends with `a` in `σ'` and has
  no complaint. One equivalence for each way to put programs together takes
  such an end apart: `ends_bind_iff` into two ends with a session in between,
  `ends_check` past a test that complains, `ends_tryCatch_throw_iff` past a
  handler that only rewords the complaint.
* `Leaves R x`: whatever `x` gives, it turns a session into a related one.
  It is for the requests between those that matter, and composes for any
  relation that is reflexive and transitive (`Leaves.bind`). Two relations
  are used: creating directories only adds some (`Grew`), and no program
  changes the layout tool (`SameTool`).
* The other way round, `Gives` says what comes of a program that is known to
  end well, and `Gives.ends` makes an end of it. `gives_makeDirectories` is
  the case in use, for a directory that can be made where it is to be, or is
  there already (`CanMake`); with `Gives.bindOk` the program goes on.
-/
import Mathlib.Order.Defs.Unbundled
import TraceFlow.Proofs.Session
import TraceFlow.Proofs.Volume.Writes

namespace TraceFlow.Session

open Volume

variable {ε α β : Type} {σ σ' σ'' : Session} {v v' v'' : Volume} {a : α} {b : β} {path : String}
  {bytes : List UInt8}

/-! ## Taking programs apart -/

theorem run_bind_iff {x : StateM Session α} {f : α → StateM Session β} :
    (x >>= f) σ = (b, σ'') ↔ ∃ a σ', x σ = (a, σ') ∧ f a σ' = (b, σ'') := by
  constructor
  · exact fun h => ⟨(x σ).1, (x σ).2, rfl, h⟩
  · rintro ⟨a, σ', hx, hf⟩
    show f (x σ).1 (x σ).2 = _
    rw [hx]
    exact hf

/-- Begun in `σ`, the program ends with `a` in `σ'`, without a complaint. -/
def Ends (x : ExceptT ε (StateM Session) α) (σ : Session) (a : α) (σ' : Session) : Prop :=
  x.run σ = (.ok a, σ')

theorem ends_pure_iff {a' : α} :
    Ends (pure a : ExceptT ε (StateM Session) α) σ a' σ' ↔ a = a' ∧ σ = σ' := by
  show ((.ok a, σ) : Except ε α × Session) = (.ok a', σ') ↔ _
  simp

/-- A complaint is no good end. -/
theorem not_ends_throw (e : ε) : ¬Ends (throw e : ExceptT ε (StateM Session) α) σ a σ' := by
  intro h
  cases congrArg Prod.fst h

theorem ends_liftM_iff {x : StateM Session α} :
    Ends (liftM x : ExceptT ε (StateM Session) α) σ a σ' ↔ x σ = (a, σ') := by
  show ((.ok (x σ).1, (x σ).2) : Except ε α × Session) = (.ok a, σ') ↔ _
  rw [Prod.mk.injEq, Except.ok.injEq, Prod.ext_iff]

/-- A program in two parts ends well exactly when both do. -/
theorem ends_bind_iff {x : ExceptT ε (StateM Session) α} {f : α → ExceptT ε (StateM Session) β} :
    Ends (x >>= f) σ b σ'' ↔ ∃ a σ', Ends x σ a σ' ∧ Ends (f a) σ' b σ'' := by
  unfold Ends
  rw [ExceptT.run_bind, run_bind_iff]
  constructor
  · rintro ⟨r, σ', hx, hf⟩
    cases r with
    | error e => cases congrArg Prod.fst hf
    | ok a => exact ⟨a, σ', hx, hf⟩
  · rintro ⟨a, σ', hx, hf⟩
    exact ⟨.ok a, σ', hx, hf⟩

theorem not_ends_throw_bind {e : ε} {f : α → ExceptT ε (StateM Session) β} :
    ¬Ends (throw e >>= f) σ b σ' := by
  intro h
  obtain ⟨_, _, hthrow, -⟩ := ends_bind_iff.1 h
  exact not_ends_throw e hthrow

/-- A program that ends well did not complain of what it checks first. -/
theorem ends_check {p : Prop} [Decidable p] {e : ε} {f : α → ExceptT ε (StateM Session) β}
    {x : ExceptT ε (StateM Session) β} (h : Ends (if p then throw e >>= f else x) σ b σ') :
    ¬p ∧ Ends x σ b σ' := by
  split at h
  · exact absurd h not_ends_throw_bind
  · exact ⟨‹_›, h⟩

/-- A program that only has its complaint reworded ends as it does alone. -/
theorem ends_tryCatch_throw_iff {x : ExceptT ε (StateM Session) α} {g : ε → ε} :
    Ends (tryCatch x fun e => throw (g e)) σ a σ' ↔ Ends x σ a σ' := by
  have hrun : (tryCatch x fun e => throw (g e)).run σ =
      match x.run σ with
      | (.ok a, σ') => (.ok a, σ')
      | (.error e, σ') => (.error (g e), σ') := by
    show (match (x.run σ).1 with
      | .ok a => (pure (.ok a) : StateM Session (Except ε α))
      | .error e => pure (.error (g e))) (x.run σ).2 = _
    rcases x.run σ with ⟨_ | _, _⟩ <;> rfl
  unfold Ends
  rw [hrun]
  rcases x.run σ with ⟨_ | _, _⟩
  · exact ⟨nofun, nofun⟩
  · rfl

/-! ## What programs leave -/

/-- Whatever the program gives, it turns a session into a related one. -/
def Leaves (R : Session → Session → Prop) (x : StateM Session α) : Prop := ∀ σ, R σ (x σ).2

section

variable {R : Session → Session → Prop} {x : StateM Session α} {f : α → StateM Session β}

theorem Leaves.pure [Std.Refl R] (a : α) : Leaves R (pure a) := fun σ => Std.Refl.refl σ

/-- What both parts of a program leave, it leaves. -/
theorem Leaves.bind [IsTrans Session R] (h : Leaves R x) (h' : ∀ a, Leaves R (f a)) :
    Leaves R (x >>= f) := fun σ => IsTrans.trans _ _ _ (h σ) (h' _ _)

theorem Leaves.of_run (h : Leaves R x) (hx : x σ = (a, σ')) : R σ σ' := by
  have hσ := h σ
  rwa [hx] at hσ

end

def SameTool (σ σ' : Session) : Prop := σ'.tool = σ.tool

instance : Std.Refl SameTool := ⟨fun _ => rfl⟩
instance : IsTrans Session SameTool := ⟨fun _ _ _ h h' => h'.trans h⟩

/-- The second session has the tool and the files of the first one, and perhaps more
directories. -/
structure Grew (σ σ' : Session) : Prop where
  tool : σ'.tool = σ.tool
  volume : Grown σ.volume σ'.volume

instance : Std.Refl Grew := ⟨fun σ => ⟨rfl, .refl σ.volume⟩⟩
instance : IsTrans Session Grew :=
  ⟨fun _ _ _ h h' => ⟨h'.tool.trans h.tool, h.volume.trans h'.volume⟩⟩

/-! ## Requests to the host -/

theorem grew_note (n : Note) : Leaves Grew (Host.note n) := fun σ => ⟨rfl, .refl σ.volume⟩

theorem grew_print (text : String) : Leaves Grew (Host.print text) :=
  fun σ => ⟨rfl, .refl σ.volume⟩

theorem grew_noteAll (notes : List Note) : Leaves Grew (Host.noteAll notes) := by
  induction notes with
  | nil => exact .pure ()
  | cons n notes ih => exact (grew_note n).bind fun _ => ih

theorem grew_isDirectory (path : String) : Leaves Grew (Host.isDirectory path) :=
  fun σ => ⟨rfl, .refl σ.volume⟩

/-- A directory that is created is one more, and changes no file. -/
theorem grew_makeDirectory (path : String) : Leaves Grew (Host.makeDirectory path) := by
  intro σ
  show Grew σ (changing (fun v => v.makeDirectory path) σ).2
  cases hmake : σ.volume.makeDirectory path with
  | ok v =>
    rw [changing_of_ok hmake]
    exact ⟨rfl, grown_makeDirectory hmake⟩
  | error e =>
    rw [changing_of_error hmake]
    exact ⟨rfl, .refl σ.volume⟩

theorem grew_ensureDirectory (path : String) :
    Leaves Grew (Host.ensureDirectory path : StateM Session _) := by
  refine (grew_makeDirectory path).bind fun made => ?_
  cases made with
  | ok _ => exact .pure _
  | error e => exact (grew_isDirectory path).bind fun there => by cases there <;> exact .pure _

/-- Directories are only created, whatever comes of it. -/
theorem grew_makeDirectoriesIn (fuel : Nat) (path : String) :
    Leaves Grew (Host.makeDirectoriesIn fuel path : StateM Session _) := by
  induction fuel generalizing path with
  | zero => exact .pure _
  | succ fuel ih =>
    have hthere : ∀ e : FileError, Leaves Grew (do
        if ← Host.isDirectory path then return .ok () else return .error e :
          StateM Session (Except FileError Unit)) := fun e =>
      (grew_isDirectory path).bind fun there => by cases there <;> exact .pure _
    unfold Host.makeDirectoriesIn
    split
    · exact .pure _
    · refine (grew_makeDirectory path).bind fun made => ?_
      split
      · exact .pure _
      · split
        · exact .pure _
        · rename_i parent _
          refine (ih parent).bind fun made => ?_
          cases made with
          | error e => exact .pure _
          | ok _ => exact grew_ensureDirectory path
      · exact hthere _

/-- A file that was written is in the volume. -/
theorem run_write (h : (Host.write path bytes : StateM Session _) σ = (.ok (), σ')) :
    SameTool σ σ' ∧ σ.volume.write path bytes = .ok σ'.volume := by
  change changing (fun v => v.write path bytes) σ = _ at h
  cases hwrite : σ.volume.write path bytes with
  | ok v =>
    rw [changing_of_ok hwrite] at h
    cases h
    exact ⟨rfl, rfl⟩
  | error e =>
    rw [changing_of_error hwrite] at h
    cases congrArg Prod.fst h

theorem sameTool_write (path : String) (bytes : List UInt8) :
    Leaves SameTool (Host.write path bytes) := by
  intro σ
  show SameTool σ (changing (fun v => v.write path bytes) σ).2
  cases hwrite : σ.volume.write path bytes with
  | ok v =>
    rw [changing_of_ok hwrite]
    rfl
  | error e => rw [changing_of_error hwrite]; rfl

theorem sameTool_read (path : String) : Leaves SameTool (Host.read path) := fun _ => rfl

theorem sameTool_modified? (path : String) : Leaves SameTool (Host.modified? path) := fun _ => rfl

theorem Leaves.sameTool {x : StateM Session α} (h : Leaves Grew x) : Leaves SameTool x :=
  fun σ => (h σ).tool

/-! ## Programs that are known to end well -/

/-- A program that is known to end well has an end. -/
theorem Gives.ends {x : ExceptT ε (StateM Session) α} (h : Gives x.run σ.volume (.ok a) v) :
    ∃ σ', Ends x σ a σ' ∧ σ'.volume = v := by
  obtain ⟨ha, hv⟩ := h σ rfl
  exact ⟨(x.run σ).2, Prod.ext ha rfl, hv⟩

theorem Gives.lift {x : StateM Session α} (h : Gives x v a v') :
    Gives (liftM x : ExceptT ε (StateM Session) α).run v (.ok a) v' := by
  intro s hs
  obtain ⟨ha, hv⟩ := h s hs
  exact ⟨congrArg Except.ok ha, hv⟩

/-- A part that ends well is followed by the rest. -/
theorem Gives.bindOk {x : ExceptT ε (StateM Session) α} {f : α → ExceptT ε (StateM Session) β}
    {r : Except ε β} (h : Gives x.run v (.ok a) v') (h' : Gives (f a).run v' r v'') :
    Gives (x >>= f).run v r v'' := by
  rw [ExceptT.run_bind]
  exact h.bind h'

theorem Gives.tryCatch {x : ExceptT ε (StateM Session) α} {f : ε → ExceptT ε (StateM Session) α}
    (h : Gives x.run v (.ok a) v') : Gives (MonadExcept.tryCatch x f).run v (.ok a) v' := by
  show Gives (x.run >>= fun r => match r with
    | .ok a => (Pure.pure (.ok a) : StateM Session (Except ε α))
    | .error e => f e) v (.ok a) v'
  exact h.bind (.pure _ _)

theorem gives_isDirectory (path : String) (v : Volume) :
    Gives (Host.isDirectory path) v (v.isDirectory path) v := by
  rintro s rfl
  exact ⟨rfl, rfl⟩

/-- The volume after a directory was created, or not if that cannot be done. -/
def made (v : Volume) (path : String) : Volume :=
  match v.makeDirectory path with
  | .ok v' => v'
  | .error _ => v

theorem gives_makeDirectory (path : String) (v : Volume) :
    Gives (Host.makeDirectory path) v ((v.makeDirectory path).map fun _ => ()) (made v path) :=
  gives_changing (fun _ h => by rw [made, h]) fun _ h => by rw [made, h]

/-- A directory can be created where it is to be, or is there. -/
def CanMake (v : Volume) (path : String) : Prop :=
  path.isEmpty = false ∧ ((v.makeDirectory path).isOk ∨
    v.makeDirectory path = .error .exists ∧ v.isDirectory path)

instance (v : Volume) (path : String) : Decidable (CanMake v path) :=
  inferInstanceAs (Decidable (_ ∧ _))

/-- A directory that can be made is made, or was there. -/
theorem gives_makeDirectories (h : CanMake v path) :
    Gives (Host.makeDirectories path) v (.ok ()) (made v path) := by
  have hmake := gives_makeDirectory path v
  unfold Host.makeDirectories Host.makeDirectoriesIn
  rw [h.1]
  rcases h.2 with hok | ⟨herror, hthere⟩
  · cases hmade : v.makeDirectory path with
    | error e =>
      rw [hmade] at hok
      cases hok
    | ok v' =>
      rw [hmade] at hmake
      exact hmake.bind (.pure _ _)
  · rw [herror] at hmake
    have hstays : made v path = v := by rw [made, herror]
    rw [hstays] at hmake ⊢
    refine hmake.bind ((gives_isDirectory path v).bind ?_)
    rw [hthere]
    exact .pure _ _

end TraceFlow.Session
