/-
TraceFlow.Proofs.Sheet.Plain — the blocks and edges of a function are read
from its plain listing.

A listing is cut into lines, and its lines at empty ones into paragraphs: the
title, then one for every block. `block?` reads such a paragraph: the name up
to a colon, then the lines of instructions, set in by four spaces, then the
arrows, set in by two, or the remark that there are none. Whether a line is
set in by four spaces is all that tells instructions from arrows
(`margin_isPrefixOf_shown`, `margin_isPrefixOf_arrowLines`).

The lines of a block are as many as it shows instructions only if none of
them holds a line feed, and a paragraph is one only if none of its lines is
empty. The first is asked of the graph (`Block.Legible`), the second holds of
every paragraph (`nil_not_mem_paragraph`), since a block shows something.

The program writes line by line with the line feeds in places that differ
from part to part. `toList_render` says that what it writes are the
paragraphs, each line with its line feed and an empty line behind each
paragraph; behind that equation only lists of lines are left, and
`read?_render` reads them by the lemmas for one block and one arrow.
-/
import TraceFlow.Proofs.Graph.Legible
import TraceFlow.Proofs.Sheet.Outline
import TraceFlow.Sheet.Plain

namespace TraceFlow.Sheet.Plain

open Text Scanner

/-! ## Reading a listing -/

/-- What sets in the lines of instructions. -/
def margin : List Char := "    ".toList

def arrow (source : String) : Scanner WrittenLink := do
  literal "  -> "
  let target ← field ' '
  literal "("
  let (kind, count) ← kindAndCount ')'
  return ⟨source, target, kind, count⟩

/-- The edges out of a block: an arrow for each of them, or the remark that there is none. -/
def arrows? (source : String) (lines : List (List Char)) : Option (List WrittenLink) :=
  if lines = ["  No successors".toList] then some []
  else if lines = [] then none
  else lines.mapM (arrow source).read?

/-- A block: its name, the lines of its instructions, its edges. -/
def block? : List (List Char) → Option (String × List WrittenLink)
  | [] => none
  | heading :: lines => do
    let name ← (field ':').read? heading
    let links ← arrows? name (lines.dropWhile margin.isPrefixOf)
    return (name, links)

def title : Scanner String := do
  literal "Function "
  field ':'

/-- The name and the outline of the function that is listed. -/
def read? (text : String) : Option (String × Outline) := do
  let lines ← parts? '\n' text.toList
  match ← parts? [] lines with
  | [heading] :: paragraphs =>
    let function ← title.read? heading
    let blocks ← paragraphs.mapM block?
    return (function, .ofBlocks blocks)
  | _ => none

/-! ## Lines of instructions -/

variable {g : Graph} {id : BlockId}

/-- The lines that show the instructions of a block. -/
def shown (g : Graph) (id : BlockId) : List (List Char) :=
  match (g.block id).synthetic with
  | some _ => [(g.listing id).toList]
  | none => (g.block id).instructions.toList.map fun i => (i.listing g.digits).toList

theorem toList_intercalate_lineFeed (text : String) (texts : List String) :
    ("\n".intercalate (text :: texts)).toList ++ ['\n'] =
      ((text :: texts).map String.toList).flatMap (· ++ ['\n']) := by
  induction texts generalizing text with
  | nil => simp
  | cons next texts ih =>
    rw [List.map_cons, List.flatMap_cons, ← ih next]
    simp [String.toList_append]

/-- The text of a block are its lines, of which the last has no line feed. -/
theorem toList_listing (h : (g.block id).Legible) :
    (g.listing id).toList ++ ['\n'] = (shown g id).flatMap (· ++ ['\n']) := by
  unfold shown
  split
  · simp
  · rename_i hcode
    have hlisting : g.listing id =
        "\n".intercalate ((g.block id).instructions.toList.map (·.listing g.digits)) := by
      unfold Graph.listing
      rw [hcode]
    rw [hlisting]
    cases hinstructions : (g.block id).instructions.toList with
    | nil => exact absurd (Array.toList_eq_nil_iff.1 hinstructions) h.nonempty
    | cons i is =>
      rw [List.map_cons, toList_intercalate_lineFeed, List.map_cons, List.map_map, List.map_cons]
      rfl

theorem lineFeed_not_mem_listing {i : Instruction} (h : ∀ label ∈ i.label, '\n' ∉ label.toList)
    (digits : Nat) : '\n' ∉ (i.listing digits).toList := by
  have hlabel : '\n' ∉ i.labelText.toList := by
    unfold Instruction.labelText
    split
    · rename_i label hsome
      simp [h label hsome]
    · simp
  simp [Instruction.listing, Instruction.describe, Instruction.opcodeHex, hlabel,
    Hex.lineFeed_not_mem_padded, Hex.lineFeed_not_mem_ofBytes]

theorem lineFeed_not_mem_shown (h : (g.block id).Legible) : ∀ l ∈ shown g id, '\n' ∉ l := by
  unfold shown
  split
  · rename_i s hs
    refine List.forall_mem_singleton.2 ?_
    unfold Graph.listing
    simp [hs, h.synthetic s hs]
  · intro l hl
    obtain ⟨i, hi, rfl⟩ := List.mem_map.1 hl
    exact lineFeed_not_mem_listing (h.instructions i (Array.mem_toList_iff.1 hi)) g.digits

theorem margin_isPrefixOf_shown : ∀ l ∈ shown g id, margin.isPrefixOf l = true := by
  unfold shown
  split
  · rename_i s hs
    refine List.forall_mem_singleton.2 (List.isPrefixOf_iff_prefix.2 ?_)
    unfold Graph.listing
    rw [hs]
    simp only [String.toList_append, List.append_assoc]
    exact List.prefix_append _ _
  · intro l hl
    obtain ⟨i, -, rfl⟩ := List.mem_map.1 hl
    refine List.isPrefixOf_iff_prefix.2 ?_
    rw [Instruction.listing, String.toList_append]
    exact List.prefix_append _ _

/-! ## Lines of edges -/

/-- An arrow without its line feed. -/
def arrowLine (g : Graph) (l : Link) : List Char :=
  ("  -> " ++ g.name l.target ++ " (" ++ l.kind.name ++ " x" ++ Nat.repr l.count ++ ")").toList

/-- The lines below the instructions of a block. -/
def arrowLines (g : Graph) (id : BlockId) : List (List Char) :=
  match g.linksFrom id with
  | [] => ["  No successors".toList]
  | links => links.map (arrowLine g)

/-- An arrow gives back its target, its kind and its count. -/
theorem takes_arrow (g : Graph) (source : String) (l : Link) :
    Takes (arrow source) (arrowLine g l) ⟨source, g.name l.target, l.kind, l.count⟩ := by
  have hline : arrowLine g l =
      "  -> ".toList ++ ((g.name l.target).toList ++ [' '] ++ ("(".toList ++
        (l.kind.name.toList ++ [' '] ++ ("x".toList ++ ((Nat.repr l.count).toList ++ [')'])) ++
          []))) := by
    simp [arrowLine, String.toList_append]
  rw [hline]
  refine (Takes.literal _).bind ((Takes.word (.name g l.target) ' ' (by decide)).bind
    ((Takes.literal _).bind ?_))
  exact (Takes.kindAndCount (by decide) l.kind l.count).bind (.pure _)

/-- So the arrows of a block give back its edges, be there any or not. -/
theorem arrows?_arrowLines :
    arrows? (g.name id) (arrowLines g id) = some ((g.linksFrom id).map (·.written g.name)) := by
  unfold arrowLines
  split
  · rename_i hnone
    rw [hnone]
    rfl
  · rename_i hlinks
    have hsome : (g.linksFrom id).map (arrowLine g) ≠ [] := mt List.map_eq_nil_iff.1 hlinks
    have hremark : (g.linksFrom id).map (arrowLine g) ≠ ["  No successors".toList] := by
      intro heq
      obtain ⟨l, -, hl⟩ := List.mem_map.1 (heq ▸ List.mem_singleton_self _)
      simp [arrowLine] at hl
    unfold arrows?
    rw [if_neg hremark, if_neg hsome]
    refine mapM_map_eq_some fun l hl => ?_
    rw [(takes_arrow g (g.name id) l).read?, Link.written, (Graph.mem_linksFrom_iff.1 hl).1]

theorem lineFeed_not_mem_arrowLines : ∀ l ∈ arrowLines g id, '\n' ∉ l := by
  unfold arrowLines
  split
  · simp
  · intro line hline
    obtain ⟨l, -, rfl⟩ := List.mem_map.1 hline
    have htarget := (IsWord.name g l.target).not_mem (c := '\n') (by decide)
    have hkind : '\n' ∉ l.kind.name.toList := by cases l.kind <;> decide
    simp [arrowLine, htarget, hkind, lineFeed_not_mem_toDigits]

/-- The lines of edges are set in by less than those of instructions. -/
theorem margin_isPrefixOf_arrowLines : ∀ l ∈ arrowLines g id, margin.isPrefixOf l = false := by
  unfold arrowLines
  split
  · decide
  · intro line hline
    obtain ⟨l, -, rfl⟩ := List.mem_map.1 hline
    rw [← Bool.not_eq_true, List.isPrefixOf_iff_prefix]
    simp [arrowLine, margin, List.cons_prefix_cons]

/-! ## Paragraphs -/

def paragraph (g : Graph) (id : BlockId) : List (List Char) :=
  ((g.name id).toList ++ [':']) :: (shown g id ++ arrowLines g id)

def paragraphs (m : FunctionMap) (function : String) (entry : BlockId) : List (List (List Char)) :=
  ["Function ".toList ++ (function.toList ++ [':'])] :: (m.walk entry).map (paragraph m.graph)

/-- A paragraph gives back its block. -/
theorem block?_paragraph (g : Graph) (id : BlockId) :
    block? (paragraph g id) = some (g.blockOutline id) := by
  have hname := (Takes.word (.name g id) ':' (by decide)).read?
  have hbelow : (shown g id ++ arrowLines g id).dropWhile margin.isPrefixOf = arrowLines g id := by
    rw [List.dropWhile_append_of_pos margin_isPrefixOf_shown]
    cases hlines : arrowLines g id with
    | nil => rfl
    | cons line lines =>
      have hline := margin_isPrefixOf_arrowLines line (hlines ▸ List.mem_cons_self)
      rw [List.dropWhile_cons, if_neg (by rw [hline]; decide)]
  unfold block? paragraph
  simp only [hname, hbelow, Option.bind_eq_bind, Option.bind_some, arrows?_arrowLines]
  rfl

/-- The parts of a block are its lines and an empty one. -/
theorem flatMap_blockItems (h : (g.block id).Legible) :
    (blockItems g id).flatMap (·.render.toList) =
      (paragraph g id ++ [[]]).flatMap (· ++ ['\n']) := by
  have hheading : (Item.block (g.name id) (g.listing id)).render.toList =
      (g.name id).toList ++ [':'] ++ ['\n'] ++ (shown g id).flatMap (· ++ ['\n']) := by
    rw [← toList_listing h]
    simp [Item.render, String.toList_append]
  have harrows : (arrows g id).flatMap (·.render.toList) =
      (arrowLines g id).flatMap (· ++ ['\n']) := by
    unfold arrows arrowLines
    cases g.linksFrom id with
    | nil => rfl
    | cons l ls =>
      rw [List.flatMap_map, List.flatMap_map]
      refine List.flatMap_congr fun l _ => ?_
      simp [Item.render, arrowLine]
  rw [blockItems, List.flatMap_cons, hheading, List.flatMap_append, harrows, paragraph]
  simp [Item.render]

/-- The parts of a listing are the lines of its paragraphs, each with an empty line behind. -/
theorem toList_render {m : FunctionMap} {entry : BlockId} (function : String)
    (h : ∀ id ∈ m.walk entry, (m.graph.block id).Legible) :
    (render m function entry).toList =
      ((paragraphs m function entry).flatMap (· ++ [[]])).flatMap (· ++ ['\n']) := by
  have htitle : (Item.title function).render.toList =
      ["Function ".toList ++ (function.toList ++ [':']), []].flatMap (· ++ ['\n']) := by
    simp [Item.render, String.toList_append]
  have hblocks : ((m.walk entry).flatMap (blockItems m.graph)).flatMap (·.render.toList) =
      (((m.walk entry).map (paragraph m.graph)).flatMap (· ++ [[]])).flatMap (· ++ ['\n']) := by
    rw [List.flatMap_assoc, List.flatMap_map, List.flatMap_assoc]
    exact List.flatMap_congr fun id hid => flatMap_blockItems (h id hid)
  rw [render, String.toList_join, List.flatMap_map, items, List.flatMap_cons, hblocks, paragraphs,
    List.flatMap_cons, List.flatMap_append, htitle]
  rfl

theorem paragraph_forall {P : List Char → Prop}
    (hheading : P ((g.name id).toList ++ [':'])) (hshown : ∀ l ∈ shown g id, P l)
    (harrows : ∀ l ∈ arrowLines g id, P l) : ∀ l ∈ paragraph g id, P l :=
  List.forall_mem_cons.2 ⟨hheading, List.forall_mem_append.2 ⟨hshown, harrows⟩⟩

theorem lineFeed_not_mem_paragraph (h : (g.block id).Legible) :
    ∀ l ∈ paragraph g id, '\n' ∉ l := by
  have hname := (IsWord.name g id).not_mem (c := '\n') (by decide)
  exact paragraph_forall (by simp [hname]) (lineFeed_not_mem_shown h) lineFeed_not_mem_arrowLines

/-- No line of a block is empty. -/
theorem nil_not_mem_paragraph : [] ∉ paragraph g id := by
  have hshown : ∀ l ∈ shown g id, l ≠ [] := by
    rintro l hl rfl
    exact absurd (margin_isPrefixOf_shown [] hl) (by decide)
  have harrows : ∀ l ∈ arrowLines g id, l ≠ [] := by
    unfold arrowLines
    split
    · decide
    · intro line hline
      obtain ⟨l, -, rfl⟩ := List.mem_map.1 hline
      simp [arrowLine]
  exact fun hmem => paragraph_forall (P := (· ≠ [])) (by simp) hshown harrows [] hmem rfl

/-- **A plain listing tells the name and the outline of its function.** -/
theorem read?_render {m : FunctionMap} {function : String} {entry : BlockId}
    (hfunction : IsWord function) (h : ∀ id ∈ m.walk entry, (m.graph.block id).Legible) :
    read? (render m function entry) = some (function, m.outline entry) := by
  have hname := hfunction.not_mem (c := '\n') (by decide)
  have hlines : ∀ l ∈ (paragraphs m function entry).flatMap (· ++ [[]]), '\n' ∉ l := by
    refine List.forall_mem_flatMap.2 (List.forall_mem_cons.2 ⟨by simp [hname], ?_⟩)
    refine List.forall_mem_map.2 fun id hid => List.forall_mem_append.2 ⟨?_, by simp⟩
    exact lineFeed_not_mem_paragraph (h id hid)
  have hparagraphs : ∀ ls ∈ paragraphs m function entry, [] ∉ ls :=
    List.forall_mem_cons.2 ⟨by simp, List.forall_mem_map.2 fun id _ => nil_not_mem_paragraph⟩
  have htitle : title.read? ("Function ".toList ++ (function.toList ++ [':'])) = some function :=
    ((Takes.literal _).bind (Takes.word hfunction ':' (by decide))).read?
  have hblocks := mapM_map_eq_some fun id (_ : id ∈ m.walk entry) => block?_paragraph m.graph id
  unfold read?
  rw [toList_render function h, parts?_flatMap hlines]
  simp only [Option.bind_eq_bind, Option.bind_some, parts?_flatMap hparagraphs]
  simp only [paragraphs, htitle, hblocks, Option.bind_some, m.outline_eq_ofBlocks]
  rfl

end TraceFlow.Sheet.Plain
