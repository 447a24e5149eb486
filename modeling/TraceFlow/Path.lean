/-
TraceFlow.Path — names of files and the directories they lie in.

A path is a text whose parts stand between slashes. An empty part and a
part of one dot say nothing, except that a path may begin with a dot. The
file name of a path is its last part that says something, unless that
leads upwards.
-/

namespace TraceFlow.Path

/-! ## Parts of a path -/

/-- The parts of a path between its slashes; there is at least one. -/
def parts : List Char → List (List Char)
  | [] => [[]]
  | c :: cs =>
    if c = '/' then [] :: parts cs
    else
      match parts cs with
      | [] => [[c]]
      | p :: ps => (c :: p) :: ps

theorem parts_ne_nil (path : List Char) : parts path ≠ [] := by
  cases path with
  | nil => simp [parts]
  | cons c cs =>
    simp only [parts]
    split
    · simp
    · split <;> simp

/-- The parts of a path with slashes between them are the path. -/
theorem intercalate_parts (path : List Char) : List.intercalate ['/'] (parts path) = path := by
  induction path with
  | nil => rfl
  | cons c cs ih =>
    cases hcs : parts cs with
    | nil => exact absurd hcs (parts_ne_nil cs)
    | cons p ps =>
      rw [hcs] at ih
      by_cases h : c = '/'
      · simp only [parts, h, if_true, hcs]
        rw [List.intercalate_cons_cons, ih]
        rfl
      · simp only [parts, h, if_false, hcs]
        cases ps with
        | nil => simpa [List.intercalate] using congrArg (c :: ·) ih
        | cons q qs =>
          rw [List.intercalate_cons_cons] at ih ⊢
          rw [← ih]
          rfl

/-- How a path begins — at the root, at a dot, or with its first part — and the rest of it. -/
def lead (path : List Char) : List Char × List Char :=
  match path with
  | '/' :: rest => (['/'], rest)
  | ['.'] => (['.'], [])
  | '.' :: '/' :: rest => (['.'], '/' :: rest)
  | path => ([], path)

/-- What stands behind the last slash of a path. -/
def lastPart (path : List Char) : List Char := (path.reverse.takeWhile (· ≠ '/')).reverse

/-- What stands before the last slash of a path; nothing if there is none. -/
def beforeLast (path : List Char) : List Char :=
  ((path.reverse.dropWhile (· ≠ '/')).drop 1).reverse

theorem length_beforeLast_lt {path : List Char} (h : path ≠ []) :
    (beforeLast path).length < path.length := by
  unfold beforeLast
  have hle : (path.reverse.dropWhile (· ≠ '/')).length ≤ path.reverse.length :=
    (List.dropWhile_sublist _).length_le
  have hpos : 0 < path.length := List.length_pos_iff.2 h
  simp only [List.length_reverse, List.length_drop] at hle ⊢
  omega

def isIdle (part : List Char) : Bool := part = [] || part = ['.']

/-- A path without the parts at its end that say nothing. -/
def trimmed (path : List Char) : List Char :=
  if path = [] then []
  else if isIdle (lastPart path) then trimmed (beforeLast path)
  else path
termination_by path.length
decreasing_by exact length_beforeLast_lt ‹_›

/-! ## File names -/

def fileName? (path : String) : Option String :=
  let body := trimmed (lead path.toList).2
  if body = [] ∨ lastPart body = ['.', '.'] then none
  else some (String.ofList (lastPart body))

/-- The path of what a path lies in. -/
def parent? (path : String) : Option String :=
  let (start, rest) := lead path.toList
  let body := trimmed rest
  if body ≠ [] then some (String.ofList (start ++ trimmed (beforeLast body)))
  else if start = ['.'] then some ""
  else none

/-- A file name without its last dot and what follows; a dot at its start does not count. -/
def stem (name : List Char) : List Char :=
  match name.reverse.dropWhile (· ≠ '.') with
  | [] => name
  | [_] => name
  | _ :: before => before.reverse

def fileStem? (path : String) : Option String :=
  (fileName? path).map fun name => String.ofList (stem name.toList)

/-! ## Joining -/

/-- The path `child` seen from the directory `dir`. -/
def join (dir child : String) : String :=
  if child.toList.head? = some '/' then child
  else if dir.isEmpty || dir.toList.getLast? = some '/' then dir ++ child
  else dir ++ "/" ++ child

/-- The path with another file name; one without a file name gets it as a further part. -/
def withFileName (path name : String) : String :=
  match fileName? path with
  | some _ => join ((parent? path).getD "") name
  | none => join path name

end TraceFlow.Path
