/-
TraceFlow.Proofs.Volume — what writing a file changes.

A volume finds files by the spot that a path leads to. This module gives
each of its operations one statement, in terms of what is found where, and
those that come later unfold none of them.

* `enter_eq_ok_iff`: a step along a path stays, leads upwards, or leads to
  a directory. What every step keeps a whole path keeps
  (`enterAll_induct`): whatever it is followed through is there (`Open`),
  and it can still be followed where there are more directories
  (`enterAll_mono`).
* `Names v path dir`: the directories of a path lead to the spot `dir`,
  and its last part names something there. `find_eq_file_iff` says which
  files are found so, `write_eq_ok` where a file is written.
* `Wrote v v' s bytes`: besides the file at `s`, the second volume has the
  directories and files of the first. Putting the file does that
  (`wrote_put`), and so does setting the time of its directory
  (`Wrote.touchParent`), which changes nothing but that time.
* `file?` is the file that a path leads to. Writing a file gives it its
  bytes and the present time (`file?_write`), and changes no file of
  another name (`file?_write_of_ne`): the last part of a path is the last
  part of its spot, so paths of different last parts lead to different
  spots (`path_spotIn_ne`), wherever their directories are.
-/
import TraceFlow.Proofs.Path
import TraceFlow.Volume

namespace TraceFlow.Volume

variable {v v' : Volume} {path other part : String} {s x y dir : Spot} {bytes c : List UInt8}
  {t : Int}

/-- A computation that went well consists of two that did. -/
theorem bind_eq_ok_iff {ε α β : Type} {m : Except ε α} {f : α → Except ε β} {b : β} :
    m >>= f = .ok b ↔ ∃ a, m = .ok a ∧ f a = .ok b := by
  cases m with
  | error e => exact ⟨nofun, fun ⟨_, h, _⟩ => nomatch h⟩
  | ok a => exact ⟨fun h => ⟨a, rfl, h⟩, fun ⟨_, h, hf⟩ => Except.ok.inj h ▸ hf⟩

/-! ## Directories -/

def hasFolder (v : Volume) (s : Spot) : Bool := (v.at? s).any Node.isDirectory

theorem hasFolder_nil (v : Volume) : v.hasFolder [] = true := rfl

theorem hasFolder_eq_true_iff : v.hasFolder s = true ↔ ∃ t, v.at? s = some (.directory t) := by
  unfold hasFolder
  cases v.at? s with
  | none => simp
  | some n => cases n <;> simp [Node.isDirectory]

theorem hasFolder_of_file (h : v.at? s = some (.file c t)) : v.hasFolder s = false := by
  rw [hasFolder, h]
  rfl

theorem look_eq_ok_iff {found : Option Node} :
    v.look s = .ok found ↔ (s.getLast?.getD "").utf8ByteSize ≤ 255 ∧ v.at? s = found := by
  unfold look
  split
  · rename_i hlong
    simp [Nat.not_le.2 hlong]
  · rename_i hshort
    simp [Nat.le_of_not_lt hshort]

/-- One part stays, leads upwards, or leads to a directory. -/
theorem enter_eq_ok_iff :
    v.enter s part = .ok x ↔
      (part = "" ∨ part = ".") ∧ x = s ∨ part = ".." ∧ x = s.dropLast ∨
        isName part ∧ part.utf8ByteSize ≤ 255 ∧ v.hasFolder (s ++ [part]) ∧ x = s ++ [part] := by
  have hlook : ∀ found, v.look (s ++ [part]) = .ok found ↔
      part.utf8ByteSize ≤ 255 ∧ v.at? (s ++ [part]) = found := by
    intro found
    rw [look_eq_ok_iff, List.getLast?_concat]
    rfl
  unfold enter
  by_cases hstay : part = "" ∨ part = "."
  · rcases hstay with rfl | rfl <;> simp [isName, @eq_comm _ s x]
  · by_cases hup : part = ".."
    · simp [hup, isName, @eq_comm _ s.dropLast x]
    · have hname : isName part = true := by simpa [isName, not_or, hup] using hstay
      simp only [hstay, hup, if_false, hname, false_and, true_and, false_or]
      constructor
      · intro h
        split at h
        · cases h
        · cases h
        · rename_i n hn
          obtain ⟨hshort, hat⟩ := (hlook _).1 hn
          split at h
          · rename_i hdirectory
            cases h
            exact ⟨hshort, by simp [hasFolder, hat, hdirectory], rfl⟩
          · cases h
      · rintro ⟨hshort, hfolder, rfl⟩
        obtain ⟨t, hat⟩ := hasFolder_eq_true_iff.1 hfolder
        rw [(hlook _).2 ⟨hshort, hat⟩]
        rfl

/-- Every directory on the way to a spot is there. -/
def Open (v : Volume) (s : Spot) : Prop := ∀ y, y <+: s → v.hasFolder y

theorem open_nil (v : Volume) : v.Open [] := fun y hy => by
  rw [List.prefix_nil.1 hy, hasFolder_nil]

theorem Open.hasFolder (h : v.Open s) : v.hasFolder s := h s List.prefix_rfl

/-- A step leads on from an open spot to an open spot. -/
theorem Open.enter (h : v.Open s) (hx : v.enter s part = .ok x) : v.Open x := by
  rcases enter_eq_ok_iff.1 hx with ⟨-, rfl⟩ | ⟨-, rfl⟩ | ⟨-, -, hfolder, rfl⟩
  · exact h
  · exact fun y hy => h y (hy.trans (List.dropLast_prefix _))
  · intro y hy
    rcases List.prefix_concat_iff.1 hy with rfl | hy
    · exact hfolder
    · exact h y hy

/-- What is kept by every step is kept along a path. -/
theorem enterAll_induct {P : Spot → Prop} {ps : List String}
    (step : ∀ part ∈ ps, ∀ s x, v.enter s part = .ok x → P s → P x) (h : P s)
    (hx : ps.foldlM v.enter s = .ok x) : P x := by
  induction ps generalizing s with
  | nil =>
    obtain rfl : s = x := Except.ok.inj hx
    exact h
  | cons part ps ih =>
    obtain ⟨hpart, hparts⟩ := List.forall_mem_cons.1 step
    obtain ⟨y, hy, hrest⟩ := bind_eq_ok_iff.1 (List.foldlM_cons (f := v.enter) ▸ hx)
    exact ih hparts (hpart s y hy h) hrest

theorem Open.enterAll (h : v.Open s) {ps : List String} (hx : ps.foldlM v.enter s = .ok x) :
    v.Open x :=
  enterAll_induct (fun _ _ _ _ hstep hopen => hopen.enter hstep) h hx

/-- Parts can still be entered where there are more directories. -/
theorem enterAll_mono (hmore : ∀ x, v.hasFolder x → v'.hasFolder x) {ps : List String}
    (hx : ps.foldlM v.enter s = .ok x) : ps.foldlM v'.enter s = .ok x := by
  induction ps generalizing s with
  | nil => exact hx
  | cons part ps ih =>
    rw [List.foldlM_cons, bind_eq_ok_iff] at hx ⊢
    obtain ⟨y, hy, hrest⟩ := hx
    refine ⟨y, ?_, ih hrest⟩
    rw [enter_eq_ok_iff] at hy ⊢
    exact hy.imp_right (.imp_right fun h => ⟨h.1, h.2.1, hmore _ h.2.2.1, h.2.2.2⟩)

/-! ## Names -/

def nameOf (path : String) : String := (parts path.toList).getLast?.getD ""

/-- The spot of the directory that a path's other parts lead to. -/
def folder (v : Volume) (path : String) : Except FileError Spot :=
  (parts path.toList).dropLast.foldlM v.enter []

/-- The last part of a path, as the module on paths has it. -/
theorem toList_nameOf (path : String) : (nameOf path).toList = Path.lastPart path.toList := by
  rw [nameOf, parts, List.getLast?_map, Path.getLast?_parts, Option.map_some, Option.getD_some,
    String.toList_ofList]

theorem slash_not_mem_nameOf (path : String) : '/' ∉ (nameOf path).toList := by
  rw [toList_nameOf]
  exact Path.slash_not_mem_lastPart _

/-- A name is the file name of its path. -/
theorem fileName?_of_isName (h : isName (nameOf path)) :
    Path.fileName? path = some (nameOf path) := by
  have hlast := toList_nameOf path
  have hne : ∀ other : String, isName other = false → (nameOf path).toList ≠ other.toList := by
    intro other hother heq
    rw [String.toList_inj.1 heq, hother] at h
    cases h
  rw [Path.fileName?_eq, ← hlast, String.ofList_toList]
  · rw [← hlast, Path.isIdle, Bool.or_eq_false_iff]
    exact ⟨decide_eq_false (hne "" rfl), decide_eq_false (hne "." rfl)⟩
  · rw [← hlast]
    exact hne ".." rfl

/-- A path can be followed to a directory, in which its last part may name something. -/
structure Names (v : Volume) (path : String) (dir : Spot) : Prop where
  checked : checkPath path = .ok ()
  name : isName (nameOf path) = true
  short : (nameOf path).utf8ByteSize ≤ 255
  folder : v.folder path = .ok dir

def spotIn (dir : Spot) (path : String) : Spot := dir ++ [nameOf path]

/-- A path still names its spot where there are more directories. -/
theorem Names.mono (h : v.Names path dir) (hmore : ∀ x, v.hasFolder x → v'.hasFolder x) :
    v'.Names path dir :=
  ⟨h.checked, h.name, h.short, enterAll_mono hmore h.folder⟩

theorem Names.hasFolder (h : v.Names path dir) : v.hasFolder dir :=
  ((open_nil v).enterAll h.folder).hasFolder

/-- A path leads to a file only by its last part. -/
theorem find_eq_file_iff :
    v.find path = .ok (.file c t) ↔
      ∃ dir, v.Names path dir ∧ v.at? (spotIn dir path) = some (.file c t) := by
  unfold find
  by_cases hname : isName ((parts path.toList).getLast?.getD "") = true
  · simp only [if_pos hname, pure_bind, bind_eq_ok_iff, look_eq_ok_iff]
    constructor
    · rintro ⟨_, hchecked, dir, hdir, found, ⟨hshort, hat⟩, hfound⟩
      rw [List.getLast?_concat] at hshort
      refine ⟨dir, ⟨hchecked, hname, hshort, hdir⟩, hat.trans ?_⟩
      cases found with
      | none => cases hfound
      | some n => exact congrArg some (Except.ok.inj hfound)
    · rintro ⟨dir, h, hat⟩
      refine ⟨(), h.checked, dir, h.folder, _, ⟨?_, hat⟩, rfl⟩
      rw [List.getLast?_concat]
      exact h.short
  · -- a part that is no name leads to a directory
    simp only [if_neg hname, bind_eq_ok_iff, look_eq_ok_iff]
    constructor
    · rintro ⟨_, -, dir, hdir, spot, hspot, found, ⟨-, hat⟩, hfound⟩
      obtain ⟨t', hdirectory⟩ := hasFolder_eq_true_iff.1
        (((open_nil v).enterAll hdir).enter hspot).hasFolder
      rw [hdirectory] at hat
      subst hat
      cases hfound
    · rintro ⟨dir, h, -⟩
      exact absurd h.name hname

/-- Paths of different names lead to different spots. -/
theorem path_spotIn_ne {dir' : Spot} (hne : nameOf other ≠ nameOf path) :
    (spotIn dir' other).path ≠ (spotIn dir path).path := by
  have hlast : ∀ (d : Spot) (p : String),
      Path.lastPart (spotIn d p).path.toList = (nameOf p).toList := by
    intro d p
    rw [Spot.path, String.toList_intercalate, spotIn, List.map_append]
    exact Path.lastPart_intercalate _ (slash_not_mem_nameOf p)
  intro heq
  refine hne (String.toList_inj.1 ?_)
  rw [← hlast dir' other, heq, hlast dir path]

/-! ## Writing -/

/-- Besides the file at a spot, the second volume has the directories and files of the first. -/
structure Wrote (v v' : Volume) (s : Spot) (bytes : List UInt8) : Prop where
  clock : v'.clock = v.clock
  there : v'.at? s = some (.file bytes v.clock)
  folders : ∀ x, v'.hasFolder x = v.hasFolder x
  files : ∀ x, x.path ≠ s.path → ∀ c t, v'.at? x = some (.file c t) ↔ v.at? x = some (.file c t)

theorem Wrote.kept (h : Wrote v v' s bytes) (x : Spot) (hx : v.hasFolder x) : v'.hasFolder x :=
  (h.folders x).trans hx

theorem clock_put (v : Volume) (s : Spot) (n : Node) : (v.put s n).clock = v.clock := by
  unfold put
  split <;> rfl

theorem at?_put {n : Node} (hs : s ≠ []) :
    (v.put s n).at? x = if x ≠ [] ∧ x.path = s.path then some n else v.at? x := by
  unfold put at?
  cases x with
  | nil => simp [hs]
  | cons p ps => simp [hs, SortedMap.get?_insert]

/-- Putting a file at a spot without a directory writes it. -/
theorem wrote_put (hs : s ≠ []) (hfree : v.hasFolder s = false) :
    Wrote v (v.put s (.file bytes v.clock)) s bytes where
  clock := clock_put ..
  there := by rw [at?_put hs, if_pos ⟨hs, rfl⟩]
  folders x := by
    rw [hasFolder, at?_put hs]
    split
    · rename_i hx
      have hsame : v.at? x = v.at? s := by simp [at?, hx, hs]
      rw [hasFolder, hsame, ← hasFolder, hfree]
      rfl
    · rfl
  files x hx c t := by rw [at?_put hs, if_neg fun h => hx h.2]

/-- A directory that was written just now is still a directory, and nothing else changes. -/
theorem at?_put_directory (hs : v.hasFolder s) (t : Int) (x : Spot) :
    (v.put s (.directory t)).at? x = v.at? x ∨
      v.hasFolder x = true ∧ (v.put s (.directory t)).hasFolder x = true := by
  by_cases hnil : s = []
  · cases x with
    | nil => exact .inr ⟨rfl, rfl⟩
    | cons p ps =>
      refine .inl ?_
      simp [put, hnil, at?]
  · rw [hasFolder, hasFolder, at?_put hnil]
    split
    · rename_i hx
      have hsame : v.at? x = v.at? s := by simp [at?, hx, hnil]
      rw [hsame]
      exact .inr ⟨hs, rfl⟩
    · exact .inl rfl

theorem hasFolder_put_directory (hs : v.hasFolder s) (t : Int) (x : Spot) :
    (v.put s (.directory t)).hasFolder x = v.hasFolder x := by
  rcases at?_put_directory hs t x with hsame | ⟨hx, hx'⟩
  · rw [hasFolder, hsame, ← hasFolder]
  · rw [hx, hx']

theorem at?_put_directory_eq_file_iff {t' : Int} (hs : v.hasFolder s) :
    (v.put s (.directory t)).at? x = some (.file c t') ↔ v.at? x = some (.file c t') := by
  rcases at?_put_directory hs t x with hsame | ⟨hx, hx'⟩
  · rw [hsame]
  · refine iff_of_false (fun hfile => ?_) fun hfile => ?_
    · simp [hasFolder_of_file hfile] at hx'
    · simp [hasFolder_of_file hfile] at hx

/-- Setting the time of a directory undoes no writing. -/
theorem Wrote.touchParent (h : Wrote v v' s bytes) (hdir : v.hasFolder s.dropLast) :
    Wrote v (v'.touchParent s) s bytes := by
  have hfolder : v'.hasFolder s.dropLast := by rwa [h.folders]
  obtain ⟨t, hat⟩ := hasFolder_eq_true_iff.1 hfolder
  have htouched : v'.touchParent s = v'.put s.dropLast (.directory v'.clock) := by
    rw [Volume.touchParent, hat]
    rfl
  rw [htouched]
  refine ⟨?_, ?_, fun x => ?_, fun x hx c t => ?_⟩
  · rw [clock_put, h.clock]
  · rw [at?_put_directory_eq_file_iff hfolder, h.there]
  · rw [hasFolder_put_directory hfolder, h.folders]
  · rw [at?_put_directory_eq_file_iff hfolder, h.files x hx]

/-- A file can be created only at the spot that its path names. -/
theorem target_eq_ok (h : v.target path = .ok (s, false)) :
    ∃ dir, checkPath path = .ok () ∧ isName (nameOf path) = true ∧ v.folder path = .ok dir ∧
      s = spotIn dir path := by
  have hcore : path.toList.getLast? ≠ some '/' →
      (path.toList.reverse.dropWhile (· = '/')).reverse = path.toList := by
    intro hlast
    rw [List.getLast?_eq_head?_reverse] at hlast
    cases hreverse : path.toList.reverse with
    | nil => simpa using hreverse.symm
    | cons p ps =>
      rw [hreverse, List.head?_cons, ne_eq, Option.some.injEq] at hlast
      rw [List.dropWhile_cons_of_neg (by simpa using hlast), ← hreverse, List.reverse_reverse]
  unfold target at h
  obtain ⟨_, hchecked, h⟩ := bind_eq_ok_iff.1 h
  obtain ⟨dir, hdir, h⟩ := bind_eq_ok_iff.1 h
  by_cases hopen : path.toList.getLast? = some '/'
  · split at h
    · simp [hopen, pure, Except.pure] at h
    · obtain ⟨spot, -, h⟩ := bind_eq_ok_iff.1 h
      cases h
  · rw [hcore hopen] at h hdir
    split at h
    · rename_i hname
      refine ⟨dir, hchecked, hname, hdir, ?_⟩
      simp only [pure, Except.pure, Except.ok.injEq, Prod.mk.injEq] at h
      exact h.1.symm
    · obtain ⟨spot, -, h⟩ := bind_eq_ok_iff.1 h
      cases h

/-- A file is written at the spot that its path names. -/
theorem write_eq_ok (h : v.write path bytes = .ok v') :
    ∃ dir, v.Names path dir ∧ Wrote v v' (spotIn dir path) bytes := by
  unfold write at h
  obtain ⟨⟨s, closed⟩, htarget, h⟩ := bind_eq_ok_iff.1 h
  cases closed with
  | true => cases h
  | false =>
    obtain ⟨dir, hchecked, hname, hdir, rfl⟩ := target_eq_ok htarget
    obtain ⟨found, hlook, h⟩ := bind_eq_ok_iff.1 h
    obtain ⟨hshort, hat⟩ := look_eq_ok_iff.1 hlook
    rw [spotIn, List.getLast?_concat] at hshort
    have hnames : v.Names path dir := ⟨hchecked, hname, hshort, hdir⟩
    have hne : spotIn dir path ≠ [] := by simp [spotIn]
    refine ⟨dir, hnames, ?_⟩
    cases found with
    | none =>
      obtain rfl := Except.ok.inj h
      refine (wrote_put hne (by rw [hasFolder, hat]; rfl)).touchParent ?_
      rw [spotIn, List.dropLast_concat]
      exact hnames.hasFolder
    | some n =>
      cases n with
      | directory t => cases h
      | file c t =>
        obtain rfl := Except.ok.inj h
        exact wrote_put hne (hasFolder_of_file hat)

/-! ## Files -/

/-- The bytes of the file that a path leads to, and the time at which it was last written. -/
def file? (v : Volume) (path : String) : Option (List UInt8 × Int) :=
  match v.find path with
  | .ok (.file bytes t) => some (bytes, t)
  | _ => none

theorem find_of_file? (h : v.file? path = some (c, t)) : v.find path = .ok (.file c t) := by
  unfold file? at h
  split at h
  · rename_i hfind
    cases h
    exact hfind
  · cases h

/-- A file is what a path names in a directory. -/
theorem file?_eq_some_iff :
    v.file? path = some (c, t) ↔
      ∃ dir, v.Names path dir ∧ v.at? (spotIn dir path) = some (.file c t) := by
  rw [← find_eq_file_iff]
  refine ⟨find_of_file?, fun h => ?_⟩
  rw [file?, h]

/-- Time that passes changes no file. -/
theorem file?_later (v : Volume) (ticks : Int) (path : String) :
    (v.later ticks).file? path = v.file? path := rfl

theorem clock_write (h : v.write path bytes = .ok v') : v'.clock = v.clock := by
  obtain ⟨dir, -, hwrote⟩ := write_eq_ok h
  exact hwrote.clock

/-- A file that was written has the bytes written and the present time. -/
theorem file?_write (h : v.write path bytes = .ok v') :
    v'.file? path = some (bytes, v.clock) := by
  obtain ⟨dir, hnames, hwrote⟩ := write_eq_ok h
  exact file?_eq_some_iff.2 ⟨dir, hnames.mono hwrote.kept, hwrote.there⟩

/-- Writing a file changes no file of another name. -/
theorem file?_write_of_ne (h : v.write path bytes = .ok v') (hne : nameOf other ≠ nameOf path) :
    v'.file? other = v.file? other := by
  obtain ⟨dir, -, hwrote⟩ := write_eq_ok h
  refine Option.ext fun ⟨c, t⟩ => ?_
  rw [file?_eq_some_iff, file?_eq_some_iff]
  refine exists_congr fun dir' => and_congr ?_ (hwrote.files _ (path_spotIn_ne hne) c t)
  exact ⟨fun k => k.mono fun x hx => (hwrote.folders x).symm.trans hx, fun k => k.mono hwrote.kept⟩

end TraceFlow.Volume
