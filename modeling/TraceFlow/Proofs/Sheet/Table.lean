/-
TraceFlow.Proofs.Sheet.Table — the edges of a function are read from its
table.

`rows?` reads a table by its quotes, commas and line feeds. It is a state
machine: `Place` says where in a cell the reader stands, outside quotes,
between them, or behind a quote that may be the first of a pair. It keeps
what it has read of the cell and of the row, so the lemmas about it are for
any such beginning: `rowsFrom_plain_append` and `rowsFrom_quoted_append` for
the two ways in which a cell is written, by induction on its characters, and
`rowsFrom_cell_append` for a cell by what ends it.

Any table with cells in every row is read back, whatever stands in its cells
(`rows?_render`); nothing about functions is used there. `links?` makes edges
of the rows below the names of the columns, where the first cell of each row
has to name the function, and the two last ones, the addresses of both ends,
are not needed. `links?_render` reads back the edges of a function.
-/
import TraceFlow.Proofs.Sheet.Outline
import TraceFlow.Sheet.Table

namespace TraceFlow.Sheet.Table

/-! ## Rows and cells -/

/-- Where in a cell a reader stands. -/
inductive Place where
  /-- Outside quotes. -/
  | plain
  /-- Between quotes. -/
  | quoted
  /-- Behind a quote that was between quotes: it ends the cell unless another one follows. -/
  | closed
deriving DecidableEq, Repr

/-- The rows of a table. Of the row that was begun the cells in `before` were read (last cell
first), and of the cell that was begun the characters in `held` (last character first). There are
none if what stands between commas is neither quoted nor free of what needs quotes, or if the last
row does not end. -/
def rowsFrom (place : Place) (held : List Char) (before : List String) :
    List Char → Option (List (List String))
  | [] => if place = .plain ∧ held = [] ∧ before = [] then some [] else none
  | c :: cs =>
    let cell := String.ofList held.reverse
    if place = .quoted then
      if c = '"' then rowsFrom .closed held before cs
      else rowsFrom .quoted (c :: held) before cs
    else if c = ',' then rowsFrom .plain [] (cell :: before) cs
    else if c = '\n' then (rowsFrom .plain [] [] cs).map ((cell :: before).reverse :: ·)
    else if place = .closed then
      if c = '"' then rowsFrom .quoted ('"' :: held) before cs else none
    else if c = '"' then if held = [] then rowsFrom .quoted [] before cs else none
    else if c = '\r' then none
    else rowsFrom .plain (c :: held) before cs

def rows? (text : String) : Option (List (List String)) := rowsFrom .plain [] [] text.toList

/-- The character stands between two cells or behind the last one of a row. -/
def EndsCell (c : Char) : Prop := c = ',' ∨ c = '\n'

variable {held xs : List Char} {before : List String} {c : Char}

/-- Outside quotes a cell without special characters is taken as it stands. -/
theorem rowsFrom_plain_append (h : xs.any needsQuotes = false) (rest : List Char) :
    rowsFrom .plain held before (xs ++ rest) =
      rowsFrom .plain (xs.reverse ++ held) before rest := by
  induction xs generalizing held with
  | nil => rfl
  | cons x xs ih =>
    rw [List.any_cons, Bool.or_eq_false_iff] at h
    obtain ⟨⟨⟨hcomma, hquote⟩, hreturn⟩, hfeed⟩ :
        ((x ≠ ',' ∧ x ≠ '"') ∧ x ≠ '\r') ∧ x ≠ '\n' := by
      simpa [needsQuotes] using h.1
    rw [List.cons_append, rowsFrom]
    simp only [reduceCtorEq, if_false, hcomma, hquote, hreturn, hfeed]
    rw [ih h.2, List.reverse_cons, List.append_assoc]
    rfl

/-- Quotes that are written twice do not end a quoted cell. -/
theorem rowsFrom_quoted_append (rest : List Char) :
    rowsFrom .quoted held before
        ((xs.flatMap fun c => if c = '"' then ['"', '"'] else [c]) ++ rest) =
      rowsFrom .quoted (xs.reverse ++ held) before rest := by
  induction xs generalizing held with
  | nil => rfl
  | cons x xs ih =>
    rw [List.flatMap_cons, List.append_assoc, List.reverse_cons, List.append_assoc]
    by_cases hx : x = '"'
    · subst hx
      simp [rowsFrom, ih]
    · simp [rowsFrom, hx, ih]

/-- A cell in writing is read up to what ends it. -/
theorem rowsFrom_cell_append (text : String) (hc : EndsCell c) (rest : List Char) :
    rowsFrom .plain [] before ((cell text).toList ++ c :: rest) =
      rowsFrom .plain text.toList.reverse before (c :: rest) := by
  unfold cell
  split
  · simp only [String.toList_append, String.toList_ofList, List.append_assoc]
    show rowsFrom .plain [] before ('"' :: (_ ++ '"' :: c :: rest)) = _
    rw [rowsFrom]
    simp only [reduceCtorEq, if_false, if_true, Char.reduceEq]
    rw [rowsFrom_quoted_append, List.append_nil]
    rcases hc with rfl | rfl
    · simp [rowsFrom]
    · simp [rowsFrom]
  · rename_i h
    rw [rowsFrom_plain_append (eq_false_of_ne_true h), List.append_nil]

theorem rowsFrom_comma (text : String) (rest : List Char) :
    rowsFrom .plain [] before ((cell text).toList ++ ',' :: rest) =
      rowsFrom .plain [] (text :: before) rest := by
  rw [rowsFrom_cell_append text (.inl rfl), rowsFrom]
  simp

theorem rowsFrom_lineFeed (text : String) (rest : List Char) :
    rowsFrom .plain [] before ((cell text).toList ++ '\n' :: rest) =
      (rowsFrom .plain [] [] rest).map ((text :: before).reverse :: ·) := by
  rw [rowsFrom_cell_append text (.inr rfl), rowsFrom]
  simp

/-- A row is read cell by cell. -/
theorem rowsFrom_row (text : String) (cells : List String) (rest : List Char) :
    rowsFrom .plain [] before ((row (text :: cells)).toList ++ rest) =
      (rowsFrom .plain [] [] rest).map ((before.reverse ++ text :: cells) :: ·) := by
  induction cells generalizing text before with
  | nil =>
    have hrow : (row [text]).toList ++ rest = (cell text).toList ++ '\n' :: rest := by
      simp [row]
    rw [hrow, rowsFrom_lineFeed, List.reverse_cons]
  | cons next cells ih =>
    have hrow : (row (text :: next :: cells)).toList ++ rest =
        (cell text).toList ++ ',' :: ((row (next :: cells)).toList ++ rest) := by
      simp [row, String.toList_append]
    rw [hrow, rowsFrom_comma, ih, List.reverse_cons, List.append_assoc]
    rfl

/-- A table in writing is read back. -/
theorem rows?_render {rows : List (List String)} (h : ∀ cells ∈ rows, cells ≠ []) :
    rows? (String.join (rows.map row)) = some rows := by
  unfold rows?
  induction rows with
  | nil => rfl
  | cons cells rows ih =>
    obtain ⟨hcells, hrows⟩ := List.forall_mem_cons.1 h
    obtain ⟨text, cells, rfl⟩ := List.exists_cons_of_ne_nil hcells
    rw [List.map_cons, String.join_cons, String.toList_append, rowsFrom_row, ih hrows]
    rfl

/-! ## Edges -/

def link? (function : String) : List String → Option WrittenLink
  | [name, source, target, kind, count, _, _] => do
    unless name = function do none
    return ⟨source, target, ← LinkKind.ofName? kind, ← count.toNat?⟩
  | _ => none

def links? (function text : String) : Option (List WrittenLink) := do
  match ← rows? text with
  | [] => none
  | header :: rows => do
    unless header = columns do none
    rows.mapM (link? function)

variable (m : FunctionMap) (function : String) (entry : BlockId)

/-- The cells of an edge give back that edge. -/
theorem link?_cells (g : Graph) (l : Link) :
    link? function (cells g function l) = some (l.written g.name) := by
  simp [link?, cells, Link.written]

theorem rows_eq : rows m function entry = (m.links entry).map (cells m.graph function) := by
  unfold rows FunctionMap.links Graph.closureLinks FunctionMap.walk
  rw [List.map_flatMap]

/-- A function's table tells its edges, whatever its name is. -/
theorem links?_render :
    links? function (render m function entry) = some (m.outline entry).links := by
  have hcells : ∀ cells ∈ columns :: rows m function entry, cells ≠ [] := by
    rw [rows_eq]
    refine List.forall_mem_cons.2 ⟨by decide, fun cells hcells => ?_⟩
    obtain ⟨l, -, rfl⟩ := List.mem_map.1 hcells
    exact List.cons_ne_nil _ _
  unfold links? render
  rw [rows?_render hcells, rows_eq]
  simp only [Option.bind_eq_bind, Option.bind_some, if_true]
  exact Text.mapM_map_eq_some fun l _ => link?_cells function m.graph l

end TraceFlow.Sheet.Table
