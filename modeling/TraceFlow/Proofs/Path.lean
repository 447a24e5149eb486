/-
TraceFlow.Proofs.Path — the last part of a path.

`lastPart` is what stands behind the last slash, and `parts` are all parts.
The two are computed differently, one by looking for the last slash and the
other by cutting at each, and `getLast?_parts` says that they agree.
`lastPart_append_slash` is the equation behind most of this: what stands in
front of a slash does not count.

What programs do with paths is then said by last parts. A path whose last
part is a name has that part as its file name (`fileName?_eq`), a path that
was given another file name ends with it (`lastPart_withFileName`), and so
does a name that was joined to a directory (`lastPart_join`).
-/
import Mathlib.Data.List.TakeWhile
import TraceFlow.Path

namespace TraceFlow.Path

variable {path x : List Char}

theorem lastPart_append_slash (x y : List Char) : lastPart (x ++ '/' :: y) = lastPart y := by
  have htake : ∀ a b : List Char,
      (a ++ '/' :: b).takeWhile (· ≠ '/') = a.takeWhile (· ≠ '/') := by
    intro a b
    induction a with
    | nil => simp
    | cons c a ih => simp only [List.cons_append, List.takeWhile_cons, ih]
  simp only [lastPart, List.reverse_append, List.reverse_cons, List.append_assoc,
    List.singleton_append, htake]

theorem lastPart_of_not_mem (h : '/' ∉ path) : lastPart path = path := by
  rw [lastPart, List.takeWhile_eq_self_iff.2 ?_, List.reverse_reverse]
  intro c hc
  have hne : c ≠ '/' := fun heq => h (heq ▸ List.mem_reverse.1 hc)
  exact decide_eq_true hne

/-- The last part holds no slash. -/
theorem slash_not_mem_lastPart (path : List Char) : '/' ∉ lastPart path := by
  intro h
  have := List.mem_takeWhile_imp (List.mem_reverse.1 h)
  simp at this

/-- A path is cut at each of its slashes. -/
theorem parts_append_slash (x y : List Char) : parts (x ++ '/' :: y) = parts x ++ parts y := by
  induction x with
  | nil => simp [parts]
  | cons c x ih =>
    rw [List.cons_append, parts, parts]
    split
    · rw [ih, List.cons_append]
    · rw [ih]
      cases hx : parts x with
      | nil => exact absurd hx (parts_ne_nil x)
      | cons p ps => rfl

theorem parts_of_not_mem (h : '/' ∉ path) : parts path = [path] := by
  induction path with
  | nil => rfl
  | cons c path ih =>
    rw [List.mem_cons, not_or] at h
    rw [parts, if_neg (Ne.symm h.1), ih h.2]

/-- A path without a slash is its last part; else that stands behind a slash. -/
theorem eq_lastPart_or (path : List Char) :
    path = lastPart path ∨ ∃ x, path = x ++ '/' :: lastPart path := by
  have hsplit : (path.reverse.dropWhile (· ≠ '/')).reverse ++ lastPart path = path := by
    rw [lastPart, ← List.reverse_append, List.takeWhile_append_dropWhile, List.reverse_reverse]
  cases hrest : path.reverse.dropWhile (· ≠ '/') with
  | nil =>
    rw [hrest] at hsplit
    exact .inl hsplit.symm
  | cons c rest =>
    have hc : c = '/' := by
      have hhead := List.head?_dropWhile_not (· ≠ '/') path.reverse
      rw [hrest] at hhead
      simpa using hhead
    subst hc
    rw [hrest, List.reverse_cons, List.append_assoc] at hsplit
    exact .inr ⟨rest.reverse, hsplit.symm⟩

/-- The last of all parts is the last part. -/
theorem getLast?_parts (path : List Char) : (parts path).getLast? = some (lastPart path) := by
  have hlast : parts (lastPart path) = [lastPart path] :=
    parts_of_not_mem (slash_not_mem_lastPart path)
  rcases eq_lastPart_or path with h | ⟨x, h⟩
  · rw [← h] at hlast
    rw [hlast, ← h]
    rfl
  · have hparts : parts path = parts x ++ [lastPart path] := by
      rw [← hlast, ← parts_append_slash, ← h]
    rw [hparts, List.getLast?_concat]

theorem lastPart_intercalate (dirs : List (List Char)) (h : '/' ∉ x) :
    lastPart (List.intercalate ['/'] (dirs ++ [x])) = x := by
  induction dirs with
  | nil => simpa using lastPart_of_not_mem h
  | cons dir dirs ih =>
    cases hrest : dirs ++ [x] with
    | nil => simp at hrest
    | cons y ys =>
      rw [List.cons_append, hrest, List.intercalate_cons_cons, List.append_assoc,
        List.singleton_append, lastPart_append_slash, ← hrest, ih]

/-- A path whose last part is a name has that as its file name. -/
theorem fileName?_eq {path : String} (hidle : isIdle (lastPart path.toList) = false)
    (hup : lastPart path.toList ≠ ['.', '.']) :
    fileName? path = some (String.ofList (lastPart path.toList)) := by
  have hlead : lastPart (lead path.toList).2 = lastPart path.toList := by
    unfold lead
    split
    · rename_i rest hpath
      rw [hpath]
      exact (lastPart_append_slash [] rest).symm
    · rename_i hpath
      rw [hpath] at hidle
      exact absurd hidle (by decide)
    · rename_i rest hpath
      rw [hpath]
      exact (lastPart_append_slash [] rest).trans (lastPart_append_slash ['.'] rest).symm
    · rfl
  have hne : (lead path.toList).2 ≠ [] := by
    intro hnil
    rw [hnil] at hlead
    rw [← hlead] at hidle
    exact absurd hidle (by decide)
  have htrimmed : trimmed (lead path.toList).2 = (lead path.toList).2 := by
    rw [trimmed, if_neg hne, hlead, hidle]
    rfl
  unfold fileName?
  simp only [htrimmed, hlead, hne, hup, or_self, if_false]

theorem lastPart_join (dir : String) {child : String} (h : '/' ∉ child.toList) :
    lastPart (join dir child).toList = child.toList := by
  unfold join
  split
  · exact lastPart_of_not_mem h
  · split
    · rename_i hdir
      rw [String.toList_append]
      rcases Bool.or_eq_true_iff.1 hdir with hempty | hslash
      · rw [String.isEmpty_iff.1 hempty]
        exact lastPart_of_not_mem h
      · obtain ⟨x, hx⟩ := List.getLast?_eq_some_iff.1 (of_decide_eq_true hslash)
        rw [hx, List.append_assoc]
        exact (lastPart_append_slash x _).trans (lastPart_of_not_mem h)
    · rw [String.toList_append, String.toList_append, List.append_assoc]
      exact (lastPart_append_slash _ _).trans (lastPart_of_not_mem h)

theorem lastPart_withFileName (path : String) {name : String} (h : '/' ∉ name.toList) :
    lastPart (withFileName path name).toList = name.toList := by
  unfold withFileName
  split <;> exact lastPart_join _ h

end TraceFlow.Path
