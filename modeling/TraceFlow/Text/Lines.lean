/-
TraceFlow.Text.Lines — cutting a sequence at line ends.

`cut` splits after every end mark; a last line without one is a line if
it holds anything. Each line says whether its end mark was there, since
readers differ in what they strip before it.
-/

namespace TraceFlow.Text

variable {α : Type} [DecidableEq α]

/-- A line without its end mark. -/
structure Line (α : Type) where
  /-- What stands before the end mark. -/
  body : List α
  /-- Whether an end mark follows. -/
  ended : Bool
deriving DecidableEq, Repr

/-- The lines of a sequence, of which `held` (last item first) was read already. -/
def cutFrom (mark : α) (held : List α) : List α → List (Line α)
  | [] => if held.isEmpty then [] else [⟨held.reverse, false⟩]
  | x :: xs =>
    if x = mark then ⟨held.reverse, true⟩ :: cutFrom mark [] xs
    else cutFrom mark (x :: held) xs

def cut (mark : α) (xs : List α) : List (Line α) := cutFrom mark [] xs

/-- A line's body, without one `strip` right before its end mark. -/
def Line.stripped (strip : α) (l : Line α) : List α :=
  if l.ended ∧ l.body.getLast? = some strip then l.body.dropLast else l.body

/-- The lines of a text: cut at line feeds, each without a carriage return before its line feed. -/
def lines (text : List Char) : List (List Char) :=
  (cut '\n' text).map (Line.stripped '\r')

theorem cutFrom_append_mark (mark : α) (held body rest : List α) (h : mark ∉ body) :
    cutFrom mark held (body ++ mark :: rest) =
      ⟨held.reverse ++ body, true⟩ :: cutFrom mark [] rest := by
  induction body generalizing held with
  | nil => simp [cutFrom]
  | cons x xs ih =>
    simp only [List.mem_cons, not_or] at h
    have hx : x ≠ mark := fun e => h.1 e.symm
    simp [cutFrom, hx, ih (x :: held) h.2]

/-- The line that was begun ends with the last end mark of `xs`; after it a new one begins. -/
theorem cutFrom_append (mark : α) (held ys : List α) {xs : List α}
    (h : xs.getLast? = some mark) :
    cutFrom mark held (xs ++ ys) = cutFrom mark held xs ++ cut mark ys := by
  induction xs generalizing held with
  | nil => cases h
  | cons x xs ih =>
    cases xs with
    | nil =>
      obtain rfl : x = mark := by simpa using h
      simp [cutFrom, cut]
    | cons y xs =>
      rw [List.getLast?_cons_cons] at h
      rw [List.cons_append, cutFrom, cutFrom]
      split
      · rw [ih [] h, List.cons_append]
      · exact ih (x :: held) h

/-- Whether a sequence stops at a line boundary: no line was begun, or the last one has ended. -/
def Complete (mark : α) (xs : List α) : Prop := xs = [] ∨ xs.getLast? = some mark

/-- What follows a line boundary is cut by itself. -/
theorem cut_append (mark : α) {xs : List α} (ys : List α) (h : Complete mark xs) :
    cut mark (xs ++ ys) = cut mark xs ++ cut mark ys := by
  rcases h with rfl | h
  · rfl
  · exact cutFrom_append mark [] ys h

/-- A body without end marks, followed by one, is the first line. -/
theorem cut_append_mark (mark : α) {body : List α} (rest : List α) (h : mark ∉ body) :
    cut mark (body ++ mark :: rest) = ⟨body, true⟩ :: cut mark rest := by
  simpa [cut] using cutFrom_append_mark mark [] body rest h

end TraceFlow.Text
