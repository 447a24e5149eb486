/-
TraceFlow.Proofs.Sheet.Quoting — the labels of a drawing can be read back.

Between double quotes a backslash takes the next character with it. Three
readers are defined here, none of which knows what was written: `unescape?`
undoes escapes, `quotedPart?` finds where a quoted text ends, and
`labelLines?` cuts a label at its line ends.

A line of a label may end in backslashes, or hold a backslash and an l of
its own, and what keeps that apart from a line end is that `escape` writes
every backslash twice. So the readers take characters in pairs, and each
lemma is by induction on the text that was escaped, with the four cases of
`escapeChar_cases` for one character of it and anything behind:

* `unescape?_escape`: the text comes back, without its carriage returns,
  which are not written at all;
* `untilQuote?_escape_append`: a quote inside is never the end;
* `labelLines?_escape_append`: nor is a backslash with an l.

`labelOf` puts lines together, and `labelOf_injective` says that no two
lists of lines without carriage returns have one label.

`quoting_reversible` gathers them, for texts and for the node of a block:
its label closes at its own quote whatever follows, and gives back the name
of the block and the lines of its listing.
-/
import TraceFlow.Proofs.Sheet.Outline
import TraceFlow.Sheet.Dot

namespace TraceFlow.Sheet.Dot

def withoutReturns (text : List Char) : List Char := text.filter (· ≠ '\r')

/-! ## Reading between double quotes -/

/-- Undoes the escapes of a text between double quotes. There is none if a quote stands there
without a backslash before it, if a backslash stands at the end, or if one stands before a character
that needs none. -/
def unescape? : List Char → Option (List Char)
  | [] => some []
  | '"' :: _ => none
  | '\\' :: '\\' :: cs => (unescape? cs).map ('\\' :: ·)
  | '\\' :: '"' :: cs => (unescape? cs).map ('"' :: ·)
  | '\\' :: _ => none
  | c :: cs => (unescape? cs).map (c :: ·)

/-- What stands before the first double quote that no backslash takes with it, and what stands
behind that quote. -/
def untilQuote? : List Char → Option (List Char × List Char)
  | [] => none
  | '"' :: rest => some ([], rest)
  | ['\\'] => none
  | '\\' :: c :: cs =>
    (untilQuote? cs).map fun (inside, rest) => ('\\' :: c :: inside, rest)
  | c :: cs => (untilQuote? cs).map fun (inside, rest) => (c :: inside, rest)

/-- The first quoted text of a statement, with what stands before and behind it. -/
def quotedPart? (statement : List Char) : Option (List Char × List Char × List Char) :=
  match statement.dropWhile (· ≠ '"') with
  | [] => none
  | _ :: rest => (untilQuote? rest).map (statement.takeWhile (· ≠ '"'), ·)

/-- The lines of a label, each of which has to end; `held` was read of the first, its last character
first. -/
def labelLines? (held : List Char) : List Char → Option (List (List Char))
  | [] => if held.isEmpty then some [] else none
  | '"' :: _ => none
  | '\\' :: 'l' :: cs => (labelLines? [] cs).map (held.reverse :: ·)
  | '\\' :: '\\' :: cs => labelLines? ('\\' :: held) cs
  | '\\' :: '"' :: cs => labelLines? ('"' :: held) cs
  | '\\' :: _ => none
  | c :: cs => labelLines? (c :: held) cs

/-! ## Reading what was escaped -/

/-- How a character is escaped, by what it is. -/
theorem escapeChar_cases (c : Char) :
    (c = '\\' ∧ escapeChar c = ['\\', '\\']) ∨ (c = '"' ∧ escapeChar c = ['\\', '"']) ∨
      (c = '\r' ∧ escapeChar c = []) ∨
      (c ≠ '\\' ∧ c ≠ '"' ∧ c ≠ '\r' ∧ escapeChar c = [c]) := by
  unfold escapeChar
  by_cases hback : c = '\\'
  · exact .inl ⟨hback, if_pos hback⟩
  · by_cases hquote : c = '"'
    · exact .inr (.inl ⟨hquote, by simp [hquote]⟩)
    · by_cases hreturn : c = '\r'
      · exact .inr (.inr (.inl ⟨hreturn, by simp [hreturn]⟩))
      · exact .inr (.inr (.inr ⟨hback, hquote, hreturn, by simp [hback, hquote, hreturn]⟩))

theorem escape_cons (c : Char) (text : List Char) :
    escape (c :: text) = escapeChar c ++ escape text := List.flatMap_cons

theorem withoutReturns_cons (c : Char) (text : List Char) :
    withoutReturns (c :: text) =
      if c = '\r' then withoutReturns text else c :: withoutReturns text := by
  by_cases hc : c = '\r' <;> simp [withoutReturns, hc]

/-- Undoing the escapes gives the text back, without its carriage returns. -/
theorem unescape?_escape (text : List Char) :
    unescape? (escape text) = some (withoutReturns text) := by
  induction text with
  | nil => rfl
  | cons c text ih =>
    rw [escape_cons, withoutReturns_cons]
    rcases escapeChar_cases c with ⟨rfl, hc⟩ | ⟨rfl, hc⟩ | ⟨rfl, hc⟩ | ⟨hback, hquote, hreturn, hc⟩
    · simp [hc, unescape?, ih]
    · simp [hc, unescape?, ih]
    · simp [hc, ih]
    · simp [hc, unescape?, ih, hback, hreturn]

/-- No quote of an escaped text closes it. -/
theorem untilQuote?_escape_append (text rest : List Char) :
    untilQuote? (escape text ++ rest) =
      (untilQuote? rest).map fun (inside, after) => (escape text ++ inside, after) := by
  induction text with
  | nil => cases h : untilQuote? rest <;> simp [escape, h]
  | cons c text ih =>
    rw [escape_cons, List.append_assoc]
    rcases escapeChar_cases c with ⟨rfl, hc⟩ | ⟨rfl, hc⟩ | ⟨rfl, hc⟩ | ⟨hback, hquote, hreturn, hc⟩
    all_goals cases h : untilQuote? rest <;> simp_all [untilQuote?]

/-- An escaped text and a line end are read as the text, without its carriage returns. -/
theorem labelLines?_escape_append (held text rest : List Char) :
    labelLines? held (escape text ++ lineEnd ++ rest) =
      (labelLines? [] rest).map ((held.reverse ++ withoutReturns text) :: ·) := by
  induction text generalizing held with
  | nil => simp [escape, lineEnd, labelLines?, withoutReturns]
  | cons c text ih =>
    rw [escape_cons, withoutReturns_cons, List.append_assoc, List.append_assoc]
    rw [List.append_assoc] at ih
    rcases escapeChar_cases c with ⟨rfl, hc⟩ | ⟨rfl, hc⟩ | ⟨rfl, hc⟩ | ⟨hback, hquote, hreturn, hc⟩
    · simp [hc, labelLines?, ih]
    · simp [hc, labelLines?, ih]
    · simp [hc, ih]
    · simp [hc, labelLines?, ih, hback, hreturn]

/-! ## Labels -/

/-- The label of lines that are escaped one by one. -/
def labelOf (lines : List (List Char)) : List Char := lines.flatMap fun l => escape l ++ lineEnd

/-- A label is cut into the lines that it was made of. -/
theorem labelLines?_labelOf (lines : List (List Char)) :
    labelLines? [] (labelOf lines) = some (lines.map withoutReturns) := by
  induction lines with
  | nil => rfl
  | cons l lines ih =>
    rw [labelOf, List.flatMap_cons, labelLines?_escape_append]
    rw [labelOf] at ih
    simp [ih]

/-- It ends at the quote behind it. -/
theorem untilQuote?_labelOf (lines : List (List Char)) (rest : List Char) :
    untilQuote? (labelOf lines ++ '"' :: rest) = some (labelOf lines, rest) := by
  induction lines with
  | nil => rfl
  | cons l lines ih =>
    have hcons : labelOf (l :: lines) = escape l ++ '\\' :: 'l' :: labelOf lines := by
      simp [labelOf, lineEnd]
    rw [hcons, List.append_assoc, untilQuote?_escape_append]
    simp [untilQuote?, ih]

theorem withoutReturns_of_not_mem {text : List Char} (h : '\r' ∉ text) :
    withoutReturns text = text := by
  refine List.filter_eq_self.2 fun c hc => ?_
  simpa using ne_of_mem_of_not_mem hc h

theorem map_withoutReturns_of_not_mem {ls : List (List Char)} (h : ∀ l ∈ ls, '\r' ∉ l) :
    ls.map withoutReturns = ls :=
  (List.map_congr_left fun l hl => withoutReturns_of_not_mem (h l hl)).trans (List.map_id _)

/-- Only one list of lines without carriage returns has a label. -/
theorem labelOf_injective {ls ms : List (List Char)} (hls : ∀ l ∈ ls, '\r' ∉ l)
    (hms : ∀ m ∈ ms, '\r' ∉ m) (h : labelOf ls = labelOf ms) : ls = ms := by
  have hread : ls.map withoutReturns = ms.map withoutReturns := by
    rw [← Option.some_inj, ← labelLines?_labelOf, h, labelLines?_labelOf]
  rwa [map_withoutReturns_of_not_mem hls, map_withoutReturns_of_not_mem hms] at hread

/-- Leaving carriage returns out before escaping changes nothing. -/
theorem escape_withoutReturns (text : List Char) : escape (withoutReturns text) = escape text := by
  induction text with
  | nil => rfl
  | cons c text ih =>
    rw [withoutReturns_cons]
    split
    · rename_i hc
      subst hc
      exact ih
    · rw [escape_cons, escape_cons, ih]

/-! ## Nodes -/

variable (g : Graph) (id : BlockId)

theorem escapeChar_of_isWordChar {c : Char} (h : BlockName.isWordChar c) : escapeChar c = [c] := by
  rcases escapeChar_cases c with ⟨rfl, -⟩ | ⟨rfl, -⟩ | ⟨rfl, -⟩ | ⟨-, -, -, hc⟩
  · exact absurd h (by decide)
  · exact absurd h (by decide)
  · exact absurd h (by decide)
  · exact hc

/-- A word needs no escapes. -/
theorem escape_of_forall_isWordChar {text : List Char} (h : ∀ c ∈ text, BlockName.isWordChar c) :
    escape text = text := by
  induction text with
  | nil => rfl
  | cons c text ih =>
    obtain ⟨hc, htext⟩ := List.forall_mem_cons.1 h
    rw [escape_cons, escapeChar_of_isWordChar hc, ih htext]
    rfl

/-- What the label of a block says: its name, and the lines of its listing without carriage
returns. -/
def labelled : List (List Char) :=
  (g.name id).toList :: (Text.lines (g.listing id).toList).map withoutReturns

/-- The label of a block is made of its name and its listing. -/
theorem label_node : (node g id).label = labelOf (labelled g id) := by
  rw [Node.label, node, labelOf, labelled, List.flatMap_cons, List.flatMap_cons,
    escape_of_forall_isWordChar (IsWord.name g id), List.flatMap_map, List.flatMap_map]
  simp only [escape_withoutReturns]

theorem return_not_mem_labelled : ∀ l ∈ labelled g id, '\r' ∉ l := by
  refine List.forall_mem_cons.2 ⟨(IsWord.name g id).not_mem (by decide), fun l hl => ?_⟩
  · obtain ⟨line, -, rfl⟩ := List.mem_map.1 hl
    simp [withoutReturns]

def opening : List Char := ("    " ++ blockTag id ++ " [label=").toList

theorem toList_render_node (n : Node) :
    n.render.toList = opening n.id ++ '"' :: (n.label ++ '"' :: "];\n".toList) := by
  simp [Node.render, opening]

theorem quote_not_mem_opening : '"' ∉ opening id := by
  have htag : '"' ∉ (blockTag id).toList := (IsWord.blockTag id).not_mem (by decide)
  simp [opening, htag]

/-- The first quote of a statement opens its quoted text. -/
theorem quotedPart?_append {before text : List Char} (h : '"' ∉ before) :
    quotedPart? (before ++ '"' :: text) = (untilQuote? text).map (before, ·) := by
  have hbefore : ∀ c ∈ before, decide (c ≠ '"') = true :=
    fun c hc => decide_eq_true (ne_of_mem_of_not_mem hc h)
  rw [quotedPart?, List.dropWhile_append_of_pos hbefore, List.takeWhile_append_of_pos hbefore]
  simp

/-- **Quoting is safe and can be undone.** No escaped text holds a quote that closes it or ends in
the middle of an escape, and undoing the escapes gives it back without carriage returns. So the
label of a node ends where its closing quote stands, whatever its block shows and whatever follows;
it is read as the block's name and the lines of its listing; and no other lines without carriage
returns have that label. -/
theorem quoting_reversible :
    (∀ text : List Char, unescape? (escape text) = some (withoutReturns text)) ∧
    ∀ (g : Graph) (id : BlockId),
      (∀ rest, quotedPart? ((node g id).render.toList ++ rest) =
        some (opening id, (node g id).label, "];\n".toList ++ rest)) ∧
      labelLines? [] (node g id).label = some (labelled g id) ∧
      ∀ lines, ((∀ l ∈ lines, '\r' ∉ l) ∧ labelOf lines = (node g id).label) ↔
        lines = labelled g id := by
  refine ⟨unescape?_escape, fun g id => ⟨fun rest => ?_, ?_, fun lines => ⟨?_, ?_⟩⟩⟩
  · rw [toList_render_node, List.append_assoc, List.cons_append, List.append_assoc,
      quotedPart?_append (quote_not_mem_opening _), label_node, List.cons_append,
      untilQuote?_labelOf]
    rfl
  · rw [label_node, labelLines?_labelOf,
      map_withoutReturns_of_not_mem (return_not_mem_labelled g id)]
  · rintro ⟨hreturns, hlabel⟩
    exact labelOf_injective hreturns (return_not_mem_labelled g id) (hlabel.trans (label_node g id))
  · rintro rfl
    exact ⟨return_not_mem_labelled g id, (label_node g id).symm⟩

end TraceFlow.Sheet.Dot
