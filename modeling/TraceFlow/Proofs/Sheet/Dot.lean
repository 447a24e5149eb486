/-
TraceFlow.Proofs.Sheet.Dot — the blocks and edges of a function are read
from its drawing.

A drawing declares a node for each block, under a tag made of its number,
with the name of the block in the first line of its label; edges go from tag
to tag. `read?` gives what stands there as a `Sketch`, with the tags as they
are, and `outline?` replaces the tags by the names that they stand for. It
refuses a drawing that declares a tag twice, and an edge to a tag that is
not declared.

* The text is cut into lines and, at empty ones, into three paragraphs: head,
  nodes, edges. That these are what was written is `cut_lines`, and needs
  that no line is empty or holds a line feed. Listings inside of labels do
  not break lines, since their line ends are escapes
  (`lineFeed_not_mem_nodeLine`).
* A node is read by its first quoted text, which ends where the label does,
  whatever the label holds (`node?_nodeLine`, from the lemmas on quoting).
  An edge is read field by field, and has to have the color of its kind
  (`takes_edge`).
* Tags are different for different blocks (`blockTag_injective`), and an edge
  of a function leads from a block of it to one of it, so both tags are
  declared (`declared_sketch`).

`read?_render` and `outline?_sketch` are the two halves of reading back.
-/
import TraceFlow.Proofs.Graph.DepthFirst
import TraceFlow.Proofs.Sheet.Quoting

namespace TraceFlow.Sheet.Dot

open Text Scanner

/-! ## Reading a drawing -/

structure Sketch where
  name : String
  /-- The tag of every node, and the name of the block that it stands for. -/
  nodes : List (String × String)
  /-- The edges, with the tags of their ends. -/
  edges : List WrittenLink
deriving DecidableEq, Repr

def tag : Scanner String := do
  literal "    "
  let tag ← field ' '
  literal "[label="
  return tag

/-- A node: its tag, and the first line of its label. -/
def node? (line : List Char) : Option (String × String) := do
  let (before, inside, after) ← quotedPart? line
  let tag ← tag.read? before
  unless after = "];".toList do none
  match ← labelLines? [] inside with
  | [] => none
  | name :: _ => return (tag, String.ofList name)

/-- Reads an edge, which has to have the color of its kind. -/
def edge : Scanner WrittenLink := do
  literal "    "
  let source ← field ' '
  literal "-> "
  let target ← field ' '
  literal "[color="
  let color ← field ','
  literal " label=\""
  let (kind, count) ← kindAndCount '"'
  literal ", tailport=s, headport=n];"
  if color = kind.color then return ⟨source, target, kind, count⟩ else failure

def heading? (line : List Char) : Option String := do
  let (before, inside, after) ← quotedPart? line
  unless before = "digraph ".toList ∧ after = " \x7b".toList do none
  let name ← unescape? inside
  return String.ofList name

/-- The lines that say how nodes and edges look. -/
def styles : List (List Char) :=
  ["    splines=true;", "    node [shape=box, fontname=\"Courier\", fontsize=10];",
    "    edge [fontname=\"Courier\", fontsize=9];"].map String.toList

def closing : List Char := "\x7d".toList

/-- The drawing in a text. -/
def read? (text : String) : Option Sketch := do
  let lines ← parts? '\n' text.toList
  match cut [] lines with
  | [⟨heading :: style, true⟩, ⟨nodes, true⟩, ⟨edges, false⟩] =>
    unless style = styles ∧ edges.getLast? = some closing do none
    let name ← heading? heading
    let nodes ← nodes.mapM node?
    let edges ← edges.dropLast.mapM edge.read?
    return ⟨name, nodes, edges⟩
  | _ => none

namespace Sketch

def tags (s : Sketch) : List String := s.nodes.map (·.1)

/-- The edge with its tags replaced by the names that they stand for. -/
def named? (s : Sketch) (l : WrittenLink) : Option WrittenLink := do
  let source ← s.nodes.lookup l.source
  let target ← s.nodes.lookup l.target
  return { l with source := source, target := target }

/-- The outline of a drawing: there is none if a tag is declared twice, or if an edge ends at a tag
that no node declares. -/
def outline? (s : Sketch) : Option Outline := do
  unless s.tags.Nodup do none
  let links ← s.edges.mapM s.named?
  return ⟨s.nodes.map (·.2), links⟩

end Sketch

/-! ## Nodes -/

variable {g : Graph} {id : BlockId}

/-- A node without its line feed. -/
def nodeLine (g : Graph) (id : BlockId) : List Char :=
  opening id ++ '"' :: (labelOf (labelled g id) ++ '"' :: "];".toList)

theorem toList_render_node_eq : (node g id).render.toList = nodeLine g id ++ ['\n'] := by
  have hid : (node g id).id = id := rfl
  rw [toList_render_node, label_node, hid, nodeLine]
  simp

theorem takes_tag (id : BlockId) : Takes tag (opening id) (blockTag id) := by
  have hopening : opening id =
      "    ".toList ++ ((blockTag id).toList ++ [' '] ++ ("[label=".toList ++ [])) := by
    simp [opening, String.toList_append]
  rw [hopening]
  exact (Takes.literal _).bind ((Takes.word (.blockTag id) ' ' (by decide)).bind
    ((Takes.literal _).bind (.pure _)))

/-- A node gives back its tag and the name of its block. -/
theorem node?_nodeLine (g : Graph) (id : BlockId) :
    node? (nodeLine g id) = some (blockTag id, g.name id) := by
  have hquoted : quotedPart? (nodeLine g id) =
      some (opening id, labelOf (labelled g id), "];".toList) := by
    rw [nodeLine, quotedPart?_append (quote_not_mem_opening id), untilQuote?_labelOf]
    rfl
  have hlabel : labelLines? [] (labelOf (labelled g id)) = some (labelled g id) := by
    rw [labelLines?_labelOf, map_withoutReturns_of_not_mem (return_not_mem_labelled g id)]
  unfold node?
  simp only [hquoted, hlabel, (takes_tag id).read?, Option.bind_eq_bind, Option.bind_some,
    if_true, Option.pure_def]
  rw [labelled]
  simp only [String.ofList_toList]

theorem lineFeed_not_mem_escape {text : List Char} (h : '\n' ∉ text) : '\n' ∉ escape text := by
  intro hmem
  obtain ⟨c, hc, hmem⟩ := List.mem_flatMap.1 hmem
  rcases escapeChar_cases c with ⟨-, heq⟩ | ⟨-, heq⟩ | ⟨-, heq⟩ | ⟨-, -, -, heq⟩
  · simp [heq] at hmem
  · simp [heq] at hmem
  · simp [heq] at hmem
  · rw [heq, List.mem_singleton] at hmem
    exact h (hmem ▸ hc)

theorem lineFeed_not_mem_labelOf {lines : List (List Char)} (h : ∀ l ∈ lines, '\n' ∉ l) :
    '\n' ∉ labelOf lines := by
  intro hmem
  obtain ⟨l, hl, hmem⟩ := List.mem_flatMap.1 hmem
  rcases List.mem_append.1 hmem with hmem | hmem
  · exact lineFeed_not_mem_escape (h l hl) hmem
  · exact absurd hmem (by decide)

theorem lineFeed_not_mem_labelled (g : Graph) (id : BlockId) : ∀ l ∈ labelled g id, '\n' ∉ l := by
  refine List.forall_mem_cons.2 ⟨(IsWord.name g id).not_mem (by decide), ?_⟩
  refine List.forall_mem_map.2 fun line hline hmem => ?_
  exact lineFeed_not_mem_of_mem_lines hline (List.mem_of_mem_filter hmem)

/-- What a block shows adds no line to a drawing. -/
theorem lineFeed_not_mem_nodeLine : '\n' ∉ nodeLine g id := by
  have htag := (IsWord.blockTag id).not_mem (c := '\n') (by decide)
  have hlabel := lineFeed_not_mem_labelOf (lineFeed_not_mem_labelled g id)
  simp [nodeLine, opening, htag, hlabel]

/-! ## Edges -/

variable {l : Link}

def edgeLine (l : Link) : List Char :=
  ("    " ++ blockTag l.source ++ " -> " ++ blockTag l.target ++ " [color=" ++ l.kind.color ++
    ", label=\"" ++ l.kind.name ++ " x" ++ Nat.repr l.count ++
    "\", tailport=s, headport=n];").toList

theorem toList_renderEdge (l : Link) : (renderEdge l).toList = edgeLine l ++ ['\n'] := by
  unfold renderEdge edgeLine
  simp

/-- An edge gives back its ends, its kind and its count. -/
theorem takes_edge (l : Link) : Takes edge (edgeLine l) (l.written blockTag) := by
  have hline : edgeLine l =
      "    ".toList ++ ((blockTag l.source).toList ++ [' '] ++ ("-> ".toList ++
        ((blockTag l.target).toList ++ [' '] ++ ("[color=".toList ++
          (l.kind.color.toList ++ [','] ++ (" label=\"".toList ++
            (l.kind.name.toList ++ [' '] ++ ("x".toList ++ ((Nat.repr l.count).toList ++ ['"'])) ++
              (", tailport=s, headport=n];".toList ++ [])))))))) := by
    simp [edgeLine, String.toList_append]
  have htag := fun id => Takes.word (.blockTag id) ' ' (by decide)
  have hcolor : Takes (field ',') (l.kind.color.toList ++ [',']) l.kind.color :=
    .field (by cases l.kind <;> decide)
  rw [hline]
  refine (Takes.literal _).bind ((htag l.source).bind ((Takes.literal _).bind ((htag l.target).bind
    ((Takes.literal _).bind (hcolor.bind ((Takes.literal _).bind ?_))))))
  refine (Takes.kindAndCount (by decide) l.kind l.count).bind ((Takes.literal _).bind ?_)
  rw [if_pos rfl]
  exact .pure _

theorem lineFeed_not_mem_edgeLine : '\n' ∉ edgeLine l := by
  have htag := fun id => (IsWord.blockTag id).not_mem (c := '\n') (by decide)
  have hkind : '\n' ∉ l.kind.name.toList ∧ '\n' ∉ l.kind.color.toList := by
    cases l.kind <;> decide
  have hcount := (IsWord.repr l.count).not_mem (c := '\n') (by decide)
  rw [Nat.repr_eq_ofList_toDigits, String.toList_ofList] at hcount
  simp [edgeLine, htag, hkind, hcount]

/-! ## Drawings -/

variable {m : FunctionMap} {function : String} {entry : BlockId}

/-- What the text of a function's drawing is read as. -/
def sketch (m : FunctionMap) (function : String) (entry : BlockId) : Sketch where
  name := function
  nodes := (m.walk entry).map fun id => (blockTag id, m.graph.name id)
  edges := (m.links entry).map (·.written blockTag)

def headingLine (function : String) : List Char :=
  ("digraph \"" ++ String.ofList (escape function.toList) ++ "\" \x7b").toList

theorem heading?_headingLine (hfunction : IsWord function) :
    heading? (headingLine function) = some function := by
  have hline : headingLine function =
      "digraph ".toList ++ '"' :: (escape function.toList ++ '"' :: " \x7b".toList) := by
    simp [headingLine, String.toList_append]
  have hquoted : quotedPart? (headingLine function) =
      some ("digraph ".toList, escape function.toList, " \x7b".toList) := by
    rw [hline, quotedPart?_append (by simp), untilQuote?_escape_append]
    simp [untilQuote?]
  have hname : unescape? (escape function.toList) = some function.toList := by
    rw [unescape?_escape, withoutReturns_of_not_mem (hfunction.not_mem (by decide))]
  unfold heading?
  simp only [hquoted, hname, Option.bind_eq_bind, Option.bind_some, and_self, if_true,
    Option.pure_def, String.ofList_toList]

def lines (m : FunctionMap) (function : String) (entry : BlockId) : List (List Char) :=
  (headingLine function :: styles) ++ [] :: ((m.walk entry).map (nodeLine m.graph) ++
    [] :: ((m.links entry).map edgeLine ++ [closing]))

theorem toList_render :
    (render m function entry).toList = (lines m function entry).flatMap (· ++ ['\n']) := by
  have hhead : (head function).toList =
      (headingLine function :: styles ++ [[]]).flatMap (· ++ ['\n']) := by
    unfold head headingLine styles
    simp [String.toList_append]
  have hnodes : (m.walk entry).flatMap (fun id => (node m.graph id).render.toList) =
      (m.walk entry).flatMap fun id => nodeLine m.graph id ++ ['\n'] :=
    List.flatMap_congr fun id _ => toList_render_node_eq
  have hedges : (m.links entry).flatMap (fun l => (renderEdge l).toList) =
      (m.links entry).flatMap fun l => edgeLine l ++ ['\n'] :=
    List.flatMap_congr fun l _ => toList_renderEdge l
  have hlinks : (m.walk entry).flatMap m.graph.linksFrom = m.links entry := rfl
  unfold render Drawing.render drawing
  simp only [String.toList_append, String.toList_join, List.flatMap_map, hlinks, hhead, hnodes,
    hedges]
  simp [lines, closing, List.flatMap_map]

theorem lineFeed_not_mem_lines (hfunction : IsWord function) :
    ∀ l ∈ lines m function entry, '\n' ∉ l := by
  have hheading : '\n' ∉ headingLine function := by
    have hname := lineFeed_not_mem_escape (hfunction.not_mem (c := '\n') (by decide))
    simp [headingLine, hname]
  refine List.forall_mem_append.2 ⟨List.forall_mem_cons.2 ⟨hheading, by simp [styles]⟩, ?_⟩
  refine List.forall_mem_cons.2 ⟨by simp, List.forall_mem_append.2 ⟨?_, ?_⟩⟩
  · exact List.forall_mem_map.2 fun id _ => lineFeed_not_mem_nodeLine
  · refine List.forall_mem_cons.2 ⟨by simp, List.forall_mem_append.2 ⟨?_, by simp [closing]⟩⟩
    exact List.forall_mem_map.2 fun l _ => lineFeed_not_mem_edgeLine

/-- The lines of a drawing fall into head, nodes and edges. -/
theorem cut_lines : cut [] (lines m function entry) =
    [⟨headingLine function :: styles, true⟩, ⟨(m.walk entry).map (nodeLine m.graph), true⟩,
      ⟨(m.links entry).map edgeLine ++ [closing], false⟩] := by
  have hhead : [] ∉ headingLine function :: styles := by
    refine List.not_mem_cons_of_ne_of_not_mem ?_ (by simp [styles])
    simp [headingLine]
  have hnodes : [] ∉ (m.walk entry).map (nodeLine m.graph) := by
    simp [nodeLine]
  have hedges : [] ∉ (m.links entry).map edgeLine ++ [closing] := by
    simp [edgeLine, closing]
  rw [lines, cut_append_mark [] _ hhead, cut_append_mark [] _ hnodes,
    cut_of_not_mem (by simp) hedges]

/-- A drawing is read as what it draws. -/
theorem read?_render (hfunction : IsWord function) :
    read? (render m function entry) = some (sketch m function entry) := by
  have hnodes := mapM_map_eq_some fun id (_ : id ∈ m.walk entry) => node?_nodeLine m.graph id
  have hedges := mapM_map_eq_some fun l (_ : l ∈ m.links entry) => (takes_edge l).read?
  unfold read?
  rw [toList_render, parts?_flatMap (lineFeed_not_mem_lines hfunction)]
  simp only [Option.bind_eq_bind, Option.bind_some, cut_lines, List.getLast?_concat, and_self,
    if_true, Option.pure_def, heading?_headingLine hfunction, hnodes, List.dropLast_concat,
    hedges]
  rfl

/-! ## Tags -/

theorem blockTag_injective : Function.Injective blockTag := by
  intro a b h
  have hlist := congrArg String.toList h
  simp only [blockTag, String.toList_append, List.append_cancel_left_eq] at hlist
  exact Nat.repr_inj.1 (String.toList_inj.1 hlist)

/-- Looking a tag up gives the name of its block. -/
theorem lookup_blockTag {ids : List BlockId} (hid : id ∈ ids) :
    (ids.map fun x => (blockTag x, g.name x)).lookup (blockTag id) = some (g.name id) := by
  induction ids with
  | nil => cases hid
  | cons x ids ih =>
    rw [List.map_cons, List.lookup_cons]
    by_cases hx : id = x
    · subst hx
      simp
    · have htag : blockTag id ≠ blockTag x := fun h => hx (blockTag_injective h)
      rw [beq_eq_false_iff_ne.2 htag]
      exact ih ((List.mem_cons.1 hid).resolve_left hx)

theorem tags_sketch : (sketch m function entry).tags = (m.walk entry).map blockTag := by
  rw [Sketch.tags, sketch, List.map_map]
  rfl

/-- No two blocks of a drawing have one tag. -/
theorem nodup_tags_sketch : (sketch m function entry).tags.Nodup := by
  rw [tags_sketch]
  exact (Traversal.nodup_visit entry).map blockTag_injective

/-- Both ends of every edge of a drawing are nodes. -/
theorem declared_sketch : ∀ e ∈ (sketch m function entry).edges,
    e.source ∈ (sketch m function entry).tags ∧ e.target ∈ (sketch m function entry).tags := by
  rw [tags_sketch]
  refine List.forall_mem_map.2 fun l hl => ?_
  obtain ⟨hsource, htarget⟩ := (Graph.linksAlong_closure m.graph entry).ends l hl
  exact ⟨List.mem_map_of_mem hsource, List.mem_map_of_mem htarget⟩

/-- With the tags replaced a drawing tells the outline. -/
theorem outline?_sketch : (sketch m function entry).outline? = some (m.outline entry) := by
  have hlinks : (sketch m function entry).edges.mapM (sketch m function entry).named? =
      some (m.outline entry).links := by
    refine mapM_map_eq_some fun l hl => ?_
    obtain ⟨hsource, htarget⟩ := (Graph.linksAlong_closure m.graph entry).ends l hl
    have hfound := fun {x} (hx : x ∈ m.walk entry) => lookup_blockTag (g := m.graph) hx
    unfold Sketch.named? sketch
    simp only [Link.written, hfound hsource, hfound htarget, Option.bind_eq_bind,
      Option.bind_some, Option.pure_def]
  unfold Sketch.outline?
  rw [hlinks]
  simp only [nodup_tags_sketch, if_true, Option.bind_eq_bind, Option.bind_some, Option.pure_def]
  simp [sketch, FunctionMap.outline]

end TraceFlow.Sheet.Dot
