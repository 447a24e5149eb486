/-
TraceFlow.Proofs.Volume.Writes — what several writes leave.

Which of several writes decides what a file holds is a question of which
paths lead to one spot, in directories that grow as files are written.

* `spot?` is where a path leads, in the directory that its other parts
  lead to. All its names are `Plain`, so spots of different names have
  different paths (`Spot.path_inj`) and a volume, which keeps its files by
  path, tells them apart. Paths of one spot find one file (`file?_congr`).
* `Grown v v'`: there are more directories perhaps, and the same files.
  Creating a directory does that (`grown_makeDirectory`), with all that it
  sets on the way.
* `Written` is a run of writes with directories created in between. A path
  that led somewhere in its course leads there in the end
  (`Written.names`), so all spots can be compared in the volume that is
  left.
* Whatever no write leads to, the run keeps (`Written.keeps`). Where one
  leads to, it leaves what the last of them wrote (`Written.last`). Both
  are inductions on the run. In the second, either a later write leads to
  the same spot and the induction has it, or none does and the first
  statement has it.
-/
import TraceFlow.Proofs.Volume

namespace TraceFlow

/-! ## Parts of a path -/

namespace Path

theorem slash_not_mem_parts {path : List Char} : ∀ p ∈ parts path, '/' ∉ p := by
  induction path with
  | nil => simp [parts]
  | cons c path ih =>
    unfold parts
    split
    · exact List.forall_mem_cons.2 ⟨List.not_mem_nil, ih⟩
    · rename_i hc
      split
      · simpa using Ne.symm hc
      · rename_i p ps hparts
        rw [hparts, List.forall_mem_cons] at ih
        refine List.forall_mem_cons.2 ⟨fun hmem => ?_, ih.2⟩
        rcases List.mem_cons.1 hmem with heq | hmem
        · exact hc heq.symm
        · exact ih.1 hmem

/-- Parts without slashes are the parts of the path made of them. -/
theorem parts_intercalate {ps : List (List Char)} (hne : ps ≠ []) (h : ∀ p ∈ ps, '/' ∉ p) :
    parts (List.intercalate ['/'] ps) = ps := by
  induction ps with
  | nil => exact absurd rfl hne
  | cons p ps ih =>
    obtain ⟨hp, hps⟩ := List.forall_mem_cons.1 h
    cases ps with
    | nil => simpa using parts_of_not_mem hp
    | cons q qs =>
      rw [List.intercalate_cons_cons, List.append_assoc, List.singleton_append,
        parts_append_slash, parts_of_not_mem hp, ih (List.cons_ne_nil _ _) hps,
        List.singleton_append]

end Path

namespace Volume

variable {v v' v'' : Volume} {path other part : String} {s s' x dir : Spot} {c : List UInt8}
  {t : Int}

/-! ## Spots of plain names -/

/-- Every name that leads to a spot is without a slash. -/
def Plain (s : Spot) : Prop := ∀ part ∈ s, '/' ∉ part.toList

theorem Plain.concat (h : Plain s) (hpart : '/' ∉ part.toList) : Plain (s ++ [part]) :=
  List.forall_mem_append.2 ⟨h, List.forall_mem_singleton.2 hpart⟩

/-- A step leads from plain names to plain names. -/
theorem Plain.enter (h : Plain s) (hpart : '/' ∉ part.toList) (hx : v.enter s part = .ok x) :
    Plain x := by
  rcases enter_eq_ok_iff.1 hx with ⟨-, rfl⟩ | ⟨-, rfl⟩ | ⟨-, -, -, rfl⟩
  · exact h
  · exact fun name hname => h name ((List.dropLast_sublist s).subset hname)
  · exact h.concat hpart

theorem Plain.enterAll (h : Plain s) {ps : List String} (hps : Plain ps)
    (hx : ps.foldlM v.enter s = .ok x) : Plain x :=
  enterAll_induct (fun part hpart _ _ hstep hplain => hplain.enter (hps part hpart) hstep) h hx

theorem plain_parts (path : List Char) : Plain (parts path) := by
  intro part hpart
  obtain ⟨p, hp, rfl⟩ := List.mem_map.1 hpart
  rw [String.toList_ofList]
  exact Path.slash_not_mem_parts p hp

/-- Spots of different names have different paths. -/
theorem Spot.path_inj (hs : Plain s) (hs' : Plain s') (hne : s ≠ []) (hne' : s' ≠ [])
    (h : s.path = s'.path) : s = s' := by
  have hparts : ∀ {s : Spot}, Plain s → s ≠ [] →
      Path.parts s.path.toList = s.map String.toList := by
    intro s hs hne
    rw [Spot.path, String.toList_intercalate]
    refine Path.parts_intercalate (by simpa using hne) fun p hp => ?_
    obtain ⟨part, hpart, rfl⟩ := List.mem_map.1 hp
    exact hs part hpart
  have hnames : s.map String.toList = s'.map String.toList := by
    rw [← hparts hs hne, h, hparts hs' hne']
  exact (List.map_inj_right fun _ _ => String.toList_inj.1).1 hnames

/-! ## Where a path leads -/

/-- Where a path leads, in the directory that its other parts lead to. -/
def spot? (v : Volume) (path : String) : Option Spot :=
  (v.folder path).toOption.map (spotIn · path)

theorem Names.spot? (h : v.Names path dir) : v.spot? path = some (spotIn dir path) := by
  rw [Volume.spot?, h.folder]
  rfl

/-- A path is named by plain names. -/
theorem Names.plain (h : v.Names path dir) : Plain (spotIn dir path) := by
  have hparts : Plain (parts path.toList).dropLast :=
    fun part hpart => plain_parts _ part ((List.dropLast_sublist _).subset hpart)
  exact Plain.concat (Plain.enterAll (s := []) (List.forall_mem_nil _) hparts h.folder)
    (slash_not_mem_nameOf path)

/-- Paths that lead to one spot lead to one file. -/
theorem file?_congr {dir' : Spot} (h : v.Names path dir) (h' : v.Names other dir')
    (heq : spotIn dir path = spotIn dir' other) : v.file? path = v.file? other := by
  have hfile : ∀ {path dir}, v.Names path dir → ∀ c t,
      v.file? path = some (c, t) ↔ v.at? (spotIn dir path) = some (.file c t) := by
    intro path dir h c t
    rw [file?_eq_some_iff]
    refine ⟨?_, fun hat => ⟨dir, h, hat⟩⟩
    rintro ⟨d, hd, hat⟩
    obtain rfl : d = dir := Except.ok.inj (hd.folder.symm.trans h.folder)
    exact hat
  refine Option.ext fun ⟨c, t⟩ => ?_
  rw [hfile h, hfile h', heq]

/-! ## Creating directories -/

/-- There are more directories, perhaps, and the same files. -/
structure Grown (v v' : Volume) : Prop where
  folders : ∀ x, v.hasFolder x → v'.hasFolder x
  files : ∀ x c t, v'.at? x = some (.file c t) ↔ v.at? x = some (.file c t)

theorem Grown.refl (v : Volume) : Grown v v := ⟨fun _ h => h, fun _ _ _ => Iff.rfl⟩

theorem Grown.trans (h : Grown v v') (h' : Grown v' v'') : Grown v v'' :=
  ⟨fun x hx => h'.folders x (h.folders x hx), fun x c t => (h'.files x c t).trans (h.files x c t)⟩

/-- Putting a directory where no file is changes no file. -/
theorem grown_put (hs : s ≠ []) (hfree : v.at? s = none) (t : Int) :
    Grown v (v.put s (.directory t)) := by
  have hat : ∀ x, (v.put s (.directory t)).at? x = v.at? x ∨
      v.at? x = none ∧ (v.put s (.directory t)).at? x = some (.directory t) := by
    intro x
    rw [at?_put hs]
    split
    · rename_i hx
      have hsame : v.at? x = v.at? s := by simp [at?, hx, hs]
      exact .inr ⟨hsame.trans hfree, rfl⟩
    · exact .inl rfl
  refine ⟨fun x hx => ?_, fun x c t' => ?_⟩
  · rcases hat x with hsame | ⟨-, hnew⟩
    · rwa [hasFolder, hsame]
    · rw [hasFolder, hnew]
      rfl
  · rcases hat x with hsame | ⟨hnone, hnew⟩
    · rw [hsame]
    · simp [hnone, hnew]

theorem grown_touchParent (h : v.hasFolder s.dropLast) : Grown v (v.touchParent s) := by
  obtain ⟨t, hat⟩ := hasFolder_eq_true_iff.1 h
  have htouched : v.touchParent s = v.put s.dropLast (.directory v.clock) := by
    rw [touchParent, hat]
    rfl
  rw [htouched]
  exact ⟨fun x hx => (hasFolder_put_directory h _ x).trans hx,
    fun _ _ _ => at?_put_directory_eq_file_iff h⟩

/-- A path would create something in a directory, or leads to one. -/
theorem open_target {closed : Bool} (h : v.target path = .ok (s, closed)) :
    v.hasFolder s ∨ s ≠ [] ∧ v.hasFolder s.dropLast := by
  unfold target at h
  obtain ⟨_, -, h⟩ := bind_eq_ok_iff.1 h
  obtain ⟨dir, hdir, h⟩ := bind_eq_ok_iff.1 h
  have hopen := (open_nil v).enterAll hdir
  split at h
  · cases h
    refine .inr ⟨by simp, ?_⟩
    rw [List.dropLast_concat]
    exact hopen.hasFolder
  · obtain ⟨x, hx, h⟩ := bind_eq_ok_iff.1 h
    cases h
    exact .inl (hopen.enter hx).hasFolder

/-- Creating a directory changes no file. -/
theorem grown_makeDirectory (h : v.makeDirectory path = .ok v') : Grown v v' := by
  unfold makeDirectory at h
  obtain ⟨⟨s, closed⟩, htarget, h⟩ := bind_eq_ok_iff.1 h
  obtain ⟨found, hlook, h⟩ := bind_eq_ok_iff.1 h
  cases found with
  | some n => cases h
  | none =>
    obtain rfl := Except.ok.inj h
    have hfree := (look_eq_ok_iff.1 hlook).2
    rcases open_target htarget with hfolder | ⟨hne, hparent⟩
    · simp [hasFolder, hfree] at hfolder
    · have hput := grown_put hne hfree v.clock
      exact hput.trans (grown_touchParent (hput.folders _ hparent))

/-! ## Runs of writes -/

section

variable {ι : Type} {file : ι → String} {content : ι → Option (List UInt8)} {i j : ι}
  {js js' : List ι}

/-- Files are written one after another, with directories created in between. -/
inductive Written (file : ι → String) (content : ι → Option (List UInt8)) :
    Volume → List ι → Volume → Prop
  /-- Nothing is written. -/
  | nil (v : Volume) : Written file content v [] v
  /-- Directories are created first. -/
  | grow {v v' v'' : Volume} {js : List ι} : Grown v v' → Written file content v' js v'' →
      Written file content v js v''
  /-- A file is written first. -/
  | write {v v' v'' : Volume} {j : ι} {js : List ι} {bytes : List UInt8} :
      content j = some bytes → v.write (file j) bytes = .ok v' →
      Written file content v' js v'' → Written file content v (j :: js) v''

namespace Written

/-- Two runs of writes in a row are one. -/
theorem append (h : Written file content v js v') (h' : Written file content v' js' v'') :
    Written file content v (js ++ js') v'' := by
  induction h with
  | nil => exact h'
  | grow hgrown _ ih => exact .grow hgrown (ih h')
  | write hcontent hwrite _ ih => exact .write hcontent hwrite (ih h')

/-- A run of writes keeps every directory. -/
theorem folders (h : Written file content v js v') (x : Spot) (hx : v.hasFolder x) :
    v'.hasFolder x := by
  induction h with
  | nil => exact hx
  | grow hgrown _ ih => exact ih (hgrown.folders x hx)
  | write _ hwrite _ ih =>
    obtain ⟨dir, -, hwrote⟩ := write_eq_ok hwrite
    exact ih (hwrote.kept x hx)

/-- Every file was written where its path leads. -/
theorem names (h : Written file content v js v') (hj : j ∈ js) :
    ∃ dir, v'.Names (file j) dir := by
  induction h with
  | nil => exact absurd hj List.not_mem_nil
  | grow _ _ ih => exact ih hj
  | write _ hwrite hrest ih =>
    rcases List.mem_cons.1 hj with rfl | hj
    · obtain ⟨dir, hnames, hwrote⟩ := write_eq_ok hwrite
      exact ⟨dir, (hnames.mono hwrote.kept).mono hrest.folders⟩
    · exact ih hj

/-- A file stays as it is where no other is written to its place. -/
theorem keeps (h : Written file content v js v') (hs : Plain s) (hne : s ≠ [])
    (hfree : ∀ j ∈ js, v'.spot? (file j) ≠ some s) (hfile : v.at? s = some (.file c t)) :
    v'.at? s = some (.file c t) := by
  induction h with
  | nil => exact hfile
  | grow hgrown _ ih => exact ih hfree ((hgrown.files s c t).2 hfile)
  | write _ hwrite hrest ih =>
    obtain ⟨hj, hfree⟩ := List.forall_mem_cons.1 hfree
    obtain ⟨dir, hnames, hwrote⟩ := write_eq_ok hwrite
    refine ih hfree ((hwrote.files s (fun hpath => ?_) c t).2 hfile)
    have hspot := ((hnames.mono hwrote.kept).mono hrest.folders).spot?
    have hsame := Spot.path_inj hs hnames.plain hne (by simp [spotIn]) hpath
    exact hj (hspot.trans (congrArg some hsame.symm))

end Written

/-- Among several, `last` is the last one whose file lies where a path leads. -/
def IsLast (v : Volume) (file : ι → String) (js : List ι) (path : String) (last : ι) : Prop :=
  ∃ before after, js = before ++ last :: after ∧ v.spot? (file last) = v.spot? path ∧
    ∀ j ∈ after, v.spot? (file j) ≠ v.spot? path

theorem IsLast.mem {last : ι} (h : IsLast v file js path last) : last ∈ js := by
  obtain ⟨before, after, rfl, -⟩ := h
  simp

theorem IsLast.spot {last : ι} (h : IsLast v file js path last) :
    v.spot? (file last) = v.spot? path := by
  obtain ⟨before, after, -, hspot, -⟩ := h
  exact hspot

/-- A write before others does not change which is the last one. -/
theorem IsLast.cons {last : ι} (h : IsLast v file js path last) (j : ι) :
    IsLast v file (j :: js) path last := by
  obtain ⟨before, after, rfl, hlast⟩ := h
  exact ⟨j :: before, after, rfl, hlast⟩

/-- A file holds what was written last to its place. -/
theorem Written.last (h : Written file content v js v') (hj : j ∈ js) :
    ∃ last bytes t, IsLast v' file js (file j) last ∧ content last = some bytes ∧
      v'.file? (file j) = some (bytes, t) := by
  induction h generalizing j with
  | nil => exact absurd hj List.not_mem_nil
  | grow _ _ ih => exact ih hj
  | @write v v₁ v' first js bytes hcontent hwrite hrest ih =>
    have hwhole : Written file content v (first :: js) v' := .write hcontent hwrite hrest
    by_cases hlater : ∃ i ∈ js, v'.spot? (file i) = v'.spot? (file j)
    · obtain ⟨i, hi, hsame⟩ := hlater
      obtain ⟨last, bytes, t, hlast, hbytes, hfile⟩ := ih hi
      obtain ⟨dir, hdir⟩ := hwhole.names hj
      obtain ⟨dir', hdir'⟩ := hrest.names hi
      have hspots : spotIn dir' (file i) = spotIn dir (file j) := by
        rw [hdir.spot?, hdir'.spot?] at hsame
        exact Option.some.inj hsame
      refine ⟨last, bytes, t, ?_, hbytes, (file?_congr hdir' hdir hspots).symm.trans hfile⟩
      unfold IsLast at hlast ⊢
      rw [hsame] at hlast
      exact IsLast.cons hlast first
    · -- only the first write leads there, so the later ones keep what it wrote
      have hfree : ∀ i ∈ js, v'.spot? (file i) ≠ v'.spot? (file j) :=
        fun i hi hsame => hlater ⟨i, hi, hsame⟩
      have hfirst : j = first := (List.mem_cons.1 hj).resolve_right fun hj => hfree j hj rfl
      subst hfirst
      obtain ⟨dir, hnames, hwrote⟩ := write_eq_ok hwrite
      have hnames' := (hnames.mono hwrote.kept).mono hrest.folders
      rw [hnames'.spot?] at hfree
      refine ⟨j, bytes, v.clock, ⟨[], js, rfl, rfl, hnames'.spot? ▸ hfree⟩, hcontent, ?_⟩
      exact file?_eq_some_iff.2
        ⟨dir, hnames', hrest.keeps hnames.plain (by simp [spotIn]) hfree hwrote.there⟩

end

end Volume

end TraceFlow
