/-
TraceFlow.Proofs.Command.Directories — which files of several logs are one.

The path of a file is made from three parts: the directory for all files,
the stem of the log, and the name of the function with the extension of
the kind. The question is when two such paths lead to one place, in a
volume in which both can be followed.

* A stem is a part of a path of its own (`Path.fileStem?_eq_some`): it
  has no slash and is not empty. So joining it to a directory adds one
  part, whether or not the directory's path ends in a slash
  (`Path.parts_join`), and the directory of a log is one step below that
  of all files (`Volume.folder_join`, `Volume.place_join`).
* Two steps from one place lead apart unless they are the same
  (`Volume.enter_eq_iff`). There are three kinds of step: to stay, upwards,
  and to a name. They differ in the length of the spot they lead to,
  except at the top, where to stay and upwards are the same.
* So the directories of two logs are one exactly if their stems are
  (`Job.sameFolder_iff`), and two files of one directory are one exactly
  if function and kind are (`Job.sameFile_iff`). The latter needs that a
  name and an extension can be read back from a file name
  (`Job.fileName_eq_iff`): no extension has a dot, so the last dot
  separates them.
-/
import TraceFlow.Proofs.BlockName
import TraceFlow.Proofs.Command.Writing

namespace TraceFlow

/-! ## Stems and joined paths -/

namespace Path

variable {path : List Char}

/-- Joining a part of a path of its own adds one part, in place of an empty last one if there is
one. -/
theorem parts_join (dir : String) {child : String} (h : '/' ∉ child.toList) :
    ∃ ps, parts (join dir child).toList = ps ++ [child.toList] ∧
      (parts dir.toList = ps ∨ parts dir.toList = ps ++ [[]]) := by
  have hhead : child.toList.head? ≠ some '/' := fun hhead => h (List.mem_of_mem_head? hhead)
  unfold join
  rw [if_neg hhead]
  split
  · rename_i hdir
    rw [String.toList_append]
    rcases Bool.or_eq_true_iff.1 hdir with hempty | hslash
    · rw [String.isEmpty_iff.1 hempty]
      exact ⟨[], parts_of_not_mem h, .inr rfl⟩
    · obtain ⟨x, hx⟩ := List.getLast?_eq_some_iff.1 (of_decide_eq_true hslash)
      rw [hx, List.append_assoc, List.singleton_append, parts_append_slash, parts_append_slash,
        parts_of_not_mem h]
      exact ⟨parts x, rfl, .inr rfl⟩
  · rw [String.toList_append, String.toList_append, List.append_assoc]
    exact ⟨parts dir.toList, by
      rw [← parts_of_not_mem h]; exact parts_append_slash _ _, .inl rfl⟩

theorem stem_subset (name : List Char) : stem name ⊆ name := by
  unfold stem
  split
  · exact List.Subset.refl name
  · exact List.Subset.refl name
  · rename_i _ before _ hrest
    intro c hc
    have hmem : c ∈ name.reverse.dropWhile (· ≠ '.') :=
      hrest ▸ List.mem_cons_of_mem _ (List.mem_reverse.1 hc)
    exact List.mem_reverse.1 ((List.dropWhile_sublist _).subset hmem)

theorem stem_ne_nil {name : List Char} (h : name ≠ []) : stem name ≠ [] := by
  unfold stem
  split
  · exact h
  · exact h
  · rename_i before hne hrest
    intro hnil
    rw [List.reverse_eq_nil_iff] at hnil
    subst hnil
    exact hne rfl

/-- What is left of a path without its idle end has a name for its last part. -/
theorem lastPart_trimmed_ne_nil (h : trimmed path ≠ []) : lastPart (trimmed path) ≠ [] := by
  induction path using trimmed.induct with
  | case1 => exact absurd (by rw [trimmed, if_pos rfl]) h
  | case2 path hne hidle ih =>
    rw [trimmed, if_neg hne, if_pos hidle] at h ⊢
    exact ih h
  | case3 path hne hidle =>
    rw [trimmed, if_neg hne, if_neg hidle]
    intro hnil
    exact hidle (by rw [hnil]; rfl)

/-- A stem is a part of a path. -/
theorem fileStem?_eq_some {path stem : String} (h : fileStem? path = some stem) :
    '/' ∉ stem.toList ∧ stem ≠ "" := by
  unfold fileStem? fileName? at h
  obtain ⟨name, hname, rfl⟩ := Option.map_eq_some_iff.1 h
  dsimp only at hname
  split at hname
  · cases hname
  · rename_i hbody
    obtain rfl := Option.some.inj hname
    have hne := lastPart_trimmed_ne_nil fun hnil => hbody (.inl hnil)
    simp only [String.toList_ofList]
    refine ⟨fun hmem => slash_not_mem_lastPart _ (stem_subset _ hmem), fun hempty => ?_⟩
    have hnil := congrArg String.toList hempty
    rw [String.toList_ofList] at hnil
    exact stem_ne_nil hne hnil

end Path

/-! ## Steps from a place -/

namespace Volume

variable {v : Volume} {s x x' : Spot} {part part' child : String}

/-- Where all parts of a path lead. -/
def place (v : Volume) (path : String) : Except FileError Spot :=
  (parts path.toList).foldlM v.enter []

theorem enter_empty (v : Volume) (s : Spot) : v.enter s "" = .ok s := by
  rw [enter, if_pos (.inl rfl)]

/-- A joined path leads to the place of the directory, and on from there. -/
theorem folder_join (v : Volume) (dir : String) (h : '/' ∉ child.toList) :
    v.folder (Path.join dir child) = v.place dir := by
  obtain ⟨ps, hjoin, hdir⟩ := Path.parts_join dir h
  rw [folder, place, parts, hjoin, List.map_append, List.map_singleton, List.dropLast_concat]
  rcases hdir with hdir | hdir
  · rw [parts, hdir]
  · rw [parts, hdir, List.map_append, List.map_singleton, List.foldlM_append]
    show _ = (ps.map String.ofList).foldlM v.enter [] >>= fun s => v.enter s "" >>= pure
    simp only [enter_empty]
    exact (bind_pure _).symm

/-- A joined path leads on from the directory by one step. -/
theorem place_join (v : Volume) (dir : String) (h : '/' ∉ child.toList) :
    v.place (Path.join dir child) = v.place dir >>= (v.enter · child) := by
  rw [← folder_join v dir h]
  obtain ⟨ps, hjoin, -⟩ := Path.parts_join dir h
  rw [folder, place, parts, hjoin, List.map_append, List.map_singleton, List.dropLast_concat,
    List.foldlM_append, String.ofList_toList]
  simp

/-- The last part of a joined path is the part that was joined. -/
theorem nameOf_join (dir : String) (h : '/' ∉ child.toList) :
    nameOf (Path.join dir child) = child := by
  rw [← String.toList_inj, toList_nameOf, Path.lastPart_join dir h]

/-- Two parts lead from a spot to the same one only if they are one part, or lead from the top to
the top. -/
theorem enter_eq_iff (hx : v.enter s part = .ok x) (hx' : v.enter s part' = .ok x')
    (hne : part ≠ "") (hne' : part' ≠ "") :
    x = x' ↔ part = part' ∨ s = [] ∧ isName part = false ∧ isName part' = false := by
  have hways : ∀ {part x}, part ≠ "" → v.enter s part = .ok x →
      part = "." ∧ x = s ∨ part = ".." ∧ x = s.dropLast ∨ isName part ∧ x = s ++ [part] := by
    intro part x hne hx
    rcases enter_eq_ok_iff.1 hx with ⟨hstay, hx⟩ | hup | ⟨hname, -, -, hx⟩
    · exact .inl ⟨hstay.resolve_left hne, hx⟩
    · exact .inr (.inl hup)
    · exact .inr (.inr ⟨hname, hx⟩)
  have hlength : ∀ {a b : Spot}, a = b → a.length = b.length := fun h => h ▸ rfl
  have hself : s.dropLast = s ↔ s = [] := by
    refine ⟨fun h => ?_, fun h => by rw [h]; rfl⟩
    have hsame := hlength h
    rw [List.length_dropLast] at hsame
    exact List.length_eq_zero_iff.1 (by omega)
  have hup : ∀ part : String, s.dropLast ≠ s ++ [part] := fun part h => by
    have hsame := hlength h
    rw [List.length_dropLast, List.length_append, List.length_singleton] at hsame
    omega
  have hdots : isName "." = false ∧ isName ".." = false := by decide
  have hnamed : ∀ {part other}, isName part = true → isName other = false → part ≠ other := by
    rintro part _ hpart hother rfl
    rw [hpart] at hother
    cases hother
  rcases hways hne hx with ⟨rfl, rfl⟩ | ⟨rfl, rfl⟩ | ⟨hname, rfl⟩ <;>
    rcases hways hne' hx' with ⟨rfl, rfl⟩ | ⟨rfl, rfl⟩ | ⟨hname', rfl⟩
  · simp
  · rw [eq_comm, hself]
    simp [hdots]
  · simp [(hnamed hname' hdots.1).symm, hname']
  · rw [hself]
    simp [hdots]
  · simp
  · simp [(hnamed hname' hdots.2).symm, hname', hup]
  · simp [hnamed hname hdots.1, hname]
  · simp [hnamed hname hdots.2, hname, (hup part).symm]
  · simp [hname]

/-- Two spots in a directory are one exactly if the directories and the names are. -/
theorem spotIn_inj {path path' : String} :
    spotIn s path = spotIn x path' ↔ s = x ∧ nameOf path = nameOf path' := by
  unfold spotIn
  generalize nameOf path = name, nameOf path' = name'
  constructor
  · intro h
    obtain ⟨hdir, hname⟩ := List.append_inj' h rfl
    exact ⟨hdir, List.singleton_inj.1 hname⟩
  · rintro ⟨rfl, rfl⟩
    rfl

end Volume

/-! ## Files of several logs -/

namespace Command

open Volume

variable {dir stem stem' : String} {count : Nat} {v : Volume} {j j' : Job}

/-- With several logs, the directory of a log is the one of its stem. -/
theorem logDir_eq {log : String} (hcount : count ≠ 1) (hstem : Path.fileStem? log = some stem) :
    logDir dir log count = Path.join dir stem := by
  rw [logDir, if_neg hcount, hstem, Option.getD_some]

namespace Job

/-- The function's name can be part of a file name. -/
def Plain (j : Job) : Prop := '/' ∉ j.function.toList

def fileName (j : Job) : String := j.function ++ "." ++ j.kind.extension

theorem Plain.slash_not_mem (h : j.Plain) : '/' ∉ j.fileName.toList := by
  have hdot : '/' ∉ ".".toList := by decide
  rw [fileName, String.toList_append, String.toList_append, List.mem_append, List.mem_append,
    not_or, not_or]
  exact ⟨⟨h, hdot⟩, j.kind.slash_not_mem_extension⟩

/-- The last dot separates the name of a function from the extension. -/
theorem fileName_eq_iff :
    j.fileName = j'.fileName ↔ j.function = j'.function ∧ j.kind = j'.kind := by
  constructor
  · intro h
    -- read backwards, an extension ends at the first dot
    have hchars := congrArg (fun name : String => name.toList.reverse) h
    simp only [fileName, String.toList_append, List.reverse_append] at hchars
    have hclass : ∀ kind : Kind, ∀ c ∈ kind.extension.toList.reverse, decide (c ≠ '.') = true := by
      intro kind c hc
      refine decide_eq_true fun heq => kind.dot_not_mem_extension ?_
      rw [← heq]
      exact List.mem_reverse.1 hc
    have hdot : ∀ cs : List Char, ∀ c ∈ (".".toList.reverse ++ cs).head?,
        decide (c ≠ '.') = false := by
      intro cs c hc
      obtain rfl : '.' = c := Option.some.inj hc
      decide
    obtain ⟨hkind, hfunction⟩ := append_inj_of_class (hclass j.kind) (hclass j'.kind)
      (hdot _) (hdot _) hchars
    rw [List.reverse_inj, String.toList_inj] at hkind
    rw [List.append_cancel_left_eq, List.reverse_inj, String.toList_inj] at hfunction
    exact ⟨hfunction, Kind.extension_injective hkind⟩
  · rintro ⟨hfunction, hkind⟩
    rw [fileName, fileName, hfunction, hkind]

/-- The last part of the path of a job is its file name. -/
theorem nameOf_file (dir : String) (count : Nat) (h : j.Plain) :
    nameOf (j.file dir count) = j.fileName :=
  nameOf_join _ h.slash_not_mem

def SameFolder (v : Volume) (dir : String) (count : Nat) (j j' : Job) : Prop :=
  v.folder (j.file dir count) = v.folder (j'.file dir count)

def SameFile (v : Volume) (dir : String) (count : Nat) (j j' : Job) : Prop :=
  v.spot? (j.file dir count) = v.spot? (j'.file dir count)

/-- The file lies one step below the directory of all files. -/
theorem folder_file (h : j.Plain) (hcount : count ≠ 1)
    (hstem : Path.fileStem? j.log = some stem) :
    v.folder (j.file dir count) = v.place dir >>= (v.enter · stem) := by
  rw [← place_join v dir (Path.fileStem?_eq_some hstem).1, ← logDir_eq hcount hstem]
  exact folder_join v _ h.slash_not_mem

section

variable {d d' : Spot} (h : j.Plain) (hnames : v.Names (j.file dir count) d)

include h hnames

/-- A stem that is a name names the directory of the file. -/
theorem folder_eq_of_isName (hcount : count ≠ 1) (hstem : Path.fileStem? j.log = some stem)
    (hname : isName stem) :
    ∃ s, v.place dir = .ok s ∧ v.folder (j.file dir count) = .ok (s ++ [stem]) := by
  have hfolder := hnames.folder
  rw [folder_file h hcount hstem] at hfolder
  obtain ⟨s, hplace, hx⟩ := bind_eq_ok_iff.1 hfolder
  refine ⟨s, hplace, hnames.folder.trans ?_⟩
  rcases enter_eq_ok_iff.1 hx with ⟨rfl | rfl, -⟩ | ⟨rfl, -⟩ | ⟨-, -, -, rfl⟩
  · exact absurd hname (by decide)
  · exact absurd hname (by decide)
  · exact absurd hname (by decide)
  · rfl

variable (h' : j'.Plain) (hnames' : v.Names (j'.file dir count) d')

include h' hnames'

/-- Two files lie in one directory exactly if their logs have one stem, unless both stems lead from
the top to the top. -/
theorem sameFolder_iff (hcount : count ≠ 1) (hstem : Path.fileStem? j.log = some stem)
    (hstem' : Path.fileStem? j'.log = some stem') :
    SameFolder v dir count j j' ↔
      stem = stem' ∨ v.place dir = .ok [] ∧ isName stem = false ∧ isName stem' = false := by
  have hfolder := hnames.folder
  have hfolder' := hnames'.folder
  rw [SameFolder, hfolder, hfolder', Except.ok.injEq]
  rw [folder_file h hcount hstem] at hfolder
  rw [folder_file h' hcount hstem'] at hfolder'
  obtain ⟨s, hplace, hx⟩ := bind_eq_ok_iff.1 hfolder
  obtain ⟨s', hplace', hx'⟩ := bind_eq_ok_iff.1 hfolder'
  obtain rfl : s = s' := Except.ok.inj (hplace.symm.trans hplace')
  rw [enter_eq_iff hx hx' (Path.fileStem?_eq_some hstem).2 (Path.fileStem?_eq_some hstem').2,
    hplace, Except.ok.injEq]

/-- Two files are one exactly if they lie in one directory, and function and kind are one. -/
theorem sameFile_iff :
    SameFile v dir count j j' ↔
      SameFolder v dir count j j' ∧ j.function = j'.function ∧ j.kind = j'.kind := by
  rw [SameFile, SameFolder, hnames.spot?, hnames'.spot?, hnames.folder, hnames'.folder,
    Option.some.injEq, Except.ok.injEq, ← fileName_eq_iff,
    ← nameOf_file dir count h, ← nameOf_file dir count h']
  exact spotIn_inj

end

end Job

end Command

end TraceFlow
