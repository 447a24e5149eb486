/-
TraceFlow.Proofs.Comparison — comparing functions is deciding whether
they are bisimilar.

The comparison walks two graphs in lockstep, pairing successors by name,
and reports what differs on the way. A report without differences is an
answer to a question that does not mention walks: `Bisimulation g h R` says
that related blocks hold the same code, that their successors have the same
names, and that successors of one name are related again.

Both directions use that a walk lists exactly the places that its start
leads to, which is a fact about traversals.

* From a walk to a relation: the pairs that a walk without differences
  visits are a bisimulation (`bisimulation_walk`). No place of such a walk
  stands alone, since that would be reported, so every successor on one side
  has its namesake on the other; and the walk goes on to the pair of them
  (`mem_walk_next`).
* From a relation to a walk: one step from a related pair leads to related
  pairs only (`related_next`), so by induction on the path the walk never
  leaves the relation (`related_walk`), and related blocks do not differ.

Successors are kept by name, and one would hide another. That no two
successors of a block have one name (`Discerning`) holds of the maps that
traces lead to, by `Extracted.navigable`, and is why the theorem is about
those. `compare_isIdentical_iff` joins the functions: the same names on both
sides, and a bisimulation for each.
-/
import Mathlib.Data.List.Forall2
import TraceFlow.Comparison
import TraceFlow.Proofs.Graph.Markers
import TraceFlow.Proofs.Traversal

namespace TraceFlow

/-- Blocks have the same content when their instructions agree, one by one, in all but labels. -/
theorem Block.sameContent_iff {a b : Block} :
    a.SameContent b ↔ a.instructions.toList.Forall₂ Instruction.SameCode b.instructions.toList ∧
      a.synthetic = b.synthetic := by
  refine and_congr_left fun _ => ?_
  rw [← Array.toList_inj, Array.toList_map, Array.toList_map, ← List.forall₂_eq_eq_eq,
    List.forall₂_map_left_iff, List.forall₂_map_right_iff]
  exact ⟨List.Forall₂.imp fun _ _ => Instruction.sameCode_iff.2,
    List.Forall₂.imp fun _ _ => Instruction.sameCode_iff.1⟩

namespace Graph

variable {g : Graph} {a x : BlockId} {n : String}

/-! ## Successors by name -/

/-- What is kept under a name is a successor of that name. -/
theorem mem_of_get?_successorsByName (h : (g.successorsByName a).get? n = some x) :
    x ∈ g.successors a ∧ g.name x = n := by
  obtain ⟨s, hs, heq⟩ := List.mem_map.1 (SortedMap.mem_of_get?_ofList h)
  obtain ⟨hname, rfl⟩ := Prod.mk.inj heq
  exact ⟨hs, hname⟩

/-- Every name of a successor is kept. -/
theorem exists_get?_successorsByName (h : x ∈ g.successors a) :
    ∃ y, (g.successorsByName a).get? (g.name x) = some y :=
  SortedMap.exists_get?_ofList (List.mem_map.2 ⟨x, h, rfl⟩)

/-- Where no two successors have one name, looking one up by name finds it. -/
theorem Discerning.get?_successorsByName (hd : Discerning g) (h : x ∈ g.successors a) :
    (g.successorsByName a).get? (g.name x) = some x := by
  obtain ⟨y, hy⟩ := exists_get?_successorsByName h
  obtain ⟨hmem, hname⟩ := mem_of_get?_successorsByName hy
  rw [hy, hd a y x hmem h hname]

/-! ## Bisimilar blocks -/

/-- Related blocks of two graphs hold the same code, their successors have the same names, and
successors of one name are related. -/
structure Bisimulation (g h : Graph) (R : BlockId → BlockId → Prop) : Prop where
  instructions : ∀ {l r}, R l r →
    (g.block l).instructions.toList.Forall₂ Instruction.SameCode (h.block r).instructions.toList
  synthetic : ∀ {l r}, R l r → (g.block l).synthetic = (h.block r).synthetic
  names : ∀ {l r}, R l r → ∀ n,
    n ∈ (g.successors l).map g.name ↔ n ∈ (h.successors r).map h.name
  next : ∀ {l r x y}, R l r → x ∈ g.successors l → y ∈ h.successors r → g.name x = h.name y → R x y

end Graph

namespace Pairing

open TraceFlow.Graph

variable {g h : Graph} {R : BlockId → BlockId → Prop} {l r x y : BlockId} {P : Pairing}
  {lefts rights : SortedMap String BlockId}

/-! ## One step of the walk -/

/-- The places behind a pair, as the walk lists them. -/
theorem mem_paired_iff : P ∈ paired lefts rights ↔
    (∃ n x, lefts.get? n = some x ∧ P = ofLeft rights (n, x)) ∨
      ∃ n y, rights.get? n = some y ∧ lefts.get? n = none ∧ P = .right y := by
  unfold paired
  simp only [List.mem_append, List.mem_map, List.mem_filter, Prod.exists,
    SortedMap.mem_entries_iff, Option.isNone_iff_eq_none, and_assoc, eq_comm (a := P)]

/-- At a pair nothing differs exactly when the blocks show the same. -/
theorem differences_both_eq_nil {f : String} :
    differences f g h (.both l r) = [] ↔ (g.block l).SameContent (h.block r) := by
  rw [differences]
  split
  · rename_i hsame
    exact ⟨fun _ => hsame, fun _ => rfl⟩
  · rename_i hdiffers
    exact ⟨fun hnil => (List.cons_ne_nil _ _ hnil).elim, fun hsame => absurd hsame hdiffers⟩

/-- A place where nothing differs is a pair of blocks with the same content. -/
theorem differences_eq_nil {f : String} (hnil : differences f g h P = []) :
    ∃ l r, P = .both l r ∧ (g.block l).SameContent (h.block r) := by
  cases P with
  | both l r => exact ⟨l, r, rfl, differences_both_eq_nil.1 hnil⟩
  | left l => cases hnil
  | right r => cases hnil

/-! ## Walks and bisimulations -/

/-- From related blocks the walk goes on to related blocks. -/
theorem related_next (hR : Bisimulation g h R) (hlr : R l r) (hP : P ∈ next g h (.both l r)) :
    ∃ x y, P = .both x y ∧ R x y := by
  rw [next] at hP
  split at hP
  · rcases mem_paired_iff.1 (List.mem_reverse.1 hP) with ⟨n, x, hx, rfl⟩ | ⟨n, y, hy, hnone, rfl⟩
    · obtain ⟨hxmem, rfl⟩ := mem_of_get?_successorsByName hx
      -- the other side has a successor of that name
      obtain ⟨z, hz, hname⟩ := List.mem_map.1 ((hR.names hlr _).1 (List.mem_map_of_mem hxmem))
      obtain ⟨y, hy⟩ := exists_get?_successorsByName hz
      rw [hname] at hy
      obtain ⟨hymem, hyname⟩ := mem_of_get?_successorsByName hy
      refine ⟨x, y, ?_, hR.next hlr hxmem hymem hyname.symm⟩
      unfold ofLeft
      rw [hy]
    · obtain ⟨hymem, rfl⟩ := mem_of_get?_successorsByName hy
      obtain ⟨z, hz, hname⟩ := List.mem_map.1 ((hR.names hlr _).2 (List.mem_map_of_mem hymem))
      obtain ⟨x, hx⟩ := exists_get?_successorsByName hz
      rw [hname, hnone] at hx
      cases hx
  · cases hP

/-- A walk from related blocks finds related blocks only. -/
theorem related_walk (hR : Bisimulation g h R) (hlr : R l r) (hP : P ∈ walk g h l r) :
    ∃ x y, P = .both x y ∧ R x y := by
  have hpath := (Traversal.mem_visit_iff _ _).1 hP
  refine hpath.closed (P := fun P => ∃ x y, P = .both x y ∧ R x y) ?_ ⟨l, r, rfl, hlr⟩
  rintro _ ⟨x, y, rfl, hxy⟩ Q hQ
  exact related_next hR hxy hQ

/-- The walk leads from a place to all that follow it. -/
theorem mem_walk_next {Q : Pairing} (hP : P ∈ walk g h l r) (hQ : Q ∈ next g h P) :
    Q ∈ walk g h l r := by
  have hpath := (Traversal.mem_visit_iff _ _).1 hP
  exact (Traversal.mem_visit_iff _ _).2 (hpath.trans (.step hQ (.here Q)))

/-- What a walk without differences pairs is a bisimulation, where no two successors of a block have
one name. -/
theorem bisimulation_walk (hg : Discerning g) (hh : Discerning h)
    (hglt : ∀ {a b}, b ∈ g.successors a → b < g.size)
    (hhlt : ∀ {a b}, b ∈ h.successors a → b < h.size)
    (hsame : ∀ P ∈ walk g h l r, ∃ x y, P = .both x y ∧ (g.block x).SameContent (h.block y)) :
    Bisimulation g h fun x y => x < g.size ∧ y < h.size ∧ .both x y ∈ walk g h l r := by
  -- a place without a partner differs
  have hleft : ∀ {x}, .left x ∉ walk g h l r := by
    intro x hx
    obtain ⟨_, _, heq, -⟩ := hsame _ hx
    cases heq
  have hright : ∀ {y}, .right y ∉ walk g h l r := by
    intro y hy
    obtain ⟨_, _, heq, -⟩ := hsame _ hy
    cases heq
  have hstep : ∀ {x y Q}, x < g.size → y < h.size → .both x y ∈ walk g h l r →
      Q ∈ paired (g.successorsByName x) (h.successorsByName y) → Q ∈ walk g h l r := by
    intro x y Q hx hy hmem hQ
    refine mem_walk_next hmem ?_
    rw [next, if_pos ⟨hx, hy⟩]
    exact List.mem_reverse.2 hQ
  have hcontent : ∀ {x y}, .both x y ∈ walk g h l r →
      (g.block x).SameContent (h.block y) := by
    intro x y hmem
    obtain ⟨_, _, heq, hcontent⟩ := hsame _ hmem
    cases heq
    exact hcontent
  refine ⟨fun {x y} hxy => (Block.sameContent_iff.1 (hcontent hxy.2.2)).1,
    fun {x y} hxy => (Block.sameContent_iff.1 (hcontent hxy.2.2)).2, ?_, ?_⟩
  · rintro x y ⟨hx, hy, hmem⟩ n
    constructor
    · intro hn
      obtain ⟨s, hs, rfl⟩ := List.mem_map.1 hn
      have hlook := hg.get?_successorsByName hs
      have hplace := hstep hx hy hmem (mem_paired_iff.2 (.inl ⟨_, s, hlook, rfl⟩))
      unfold ofLeft at hplace
      split at hplace
      · rename_i t ht
        obtain ⟨htmem, htname⟩ := mem_of_get?_successorsByName ht
        exact List.mem_map.2 ⟨t, htmem, htname⟩
      · exact absurd hplace hleft
    · intro hn
      obtain ⟨t, ht, rfl⟩ := List.mem_map.1 hn
      have hlook := hh.get?_successorsByName ht
      cases hs : (g.successorsByName x).get? (h.name t) with
      | none =>
        have hplace := hstep hx hy hmem (mem_paired_iff.2 (.inr ⟨_, t, hlook, hs, rfl⟩))
        exact absurd hplace hright
      | some s =>
        obtain ⟨hsmem, hsname⟩ := mem_of_get?_successorsByName hs
        exact List.mem_map.2 ⟨s, hsmem, hsname⟩
  · rintro x y s t ⟨hx, hy, hmem⟩ hs ht hname
    refine ⟨hglt hs, hhlt ht, hstep hx hy hmem (mem_paired_iff.2 (.inl ⟨g.name s, s, ?_, ?_⟩))⟩
    · exact hg.get?_successorsByName hs
    · unfold ofLeft
      rw [hname, hh.get?_successorsByName ht]

/-- A walk finds no difference exactly when a bisimulation relates the blocks where it starts. -/
theorem walk_differences_eq_nil_iff {f : String} (hg : Discerning g) (hh : Discerning h)
    (hglt : ∀ {a b}, b ∈ g.successors a → b < g.size)
    (hhlt : ∀ {a b}, b ∈ h.successors a → b < h.size) (hl : l < g.size) (hr : r < h.size) :
    (walk g h l r).flatMap (differences f g h) = [] ↔ ∃ R, Bisimulation g h R ∧ R l r := by
  rw [List.flatMap_eq_nil_iff]
  constructor
  · intro hnil
    refine ⟨_, bisimulation_walk hg hh hglt hhlt fun P hP => differences_eq_nil (hnil P hP),
      hl, hr, ?_⟩
    exact (Traversal.mem_visit_iff _ _).2 (.here _)
  · rintro ⟨R, hR, hlr⟩ P hP
    obtain ⟨x, y, rfl, hxy⟩ := related_walk hR hlr hP
    exact differences_both_eq_nil.2
      (Block.sameContent_iff.2 ⟨hR.instructions hxy, hR.synthetic hxy⟩)

end Pairing

namespace FunctionMap

open TraceFlow.Graph

variable {a b m : FunctionMap} {name : String}

theorem mem_unitedNames_iff :
    name ∈ a.unitedNames b ↔ name ∈ a.functions.keys ∨ name ∈ b.functions.keys := by
  rw [unitedNames, NameSet.mem_names_ofNames, List.mem_append]

/-- A function that only one map has is a difference. -/
theorem mem_keys_iff_of_differencesIn (hnil : a.differencesIn b name = []) :
    name ∈ a.functions.keys ↔ name ∈ b.functions.keys := by
  unfold differencesIn at hnil
  rw [SortedMap.mem_keys_iff, SortedMap.mem_keys_iff]
  cases hl : a.functions.get? name with
  | none =>
    cases hr : b.functions.get? name with
    | none => rfl
    | some r => simp [hl, hr] at hnil
  | some l =>
    cases hr : b.functions.get? name with
    | none => simp [hl, hr] at hnil
    | some r => exact iff_of_true rfl rfl

/-- The maps of functions that traces lead to. -/
def Extracted (m : FunctionMap) : Prop :=
  ∃ s r, Recorder.Reached s r ∧ m = (r.finish s.profile).functionMap s.profile

theorem extracted_ofTrace (s : Setup) (bytes : List UInt8) : Extracted (ofTrace s bytes) :=
  ⟨s, _, Recorder.Reached.new.feedLines _, rfl⟩

/-- The maps that traces lead to can be walked by names. -/
theorem Extracted.navigable (h : Extracted m) : Navigable m := by
  obtain ⟨s, r, hr, rfl⟩ := h
  exact FunctionMap.navigable hr.sound

/-- **Two maps of functions are identical to a comparison exactly when they are bisimilar by
name**: they have functions of the same names, and for each name a bisimulation relates the two
entries. -/
theorem compare_isIdentical_iff (ha : Extracted a) (hb : Extracted b) :
    (a.compare b).isIdentical = true ↔
      (∀ name, name ∈ a.functions.keys ↔ name ∈ b.functions.keys) ∧
        ∀ name l r, a.functions.get? name = some l → b.functions.get? name = some r →
          ∃ R, Bisimulation a.graph b.graph R ∧ R l r := by
  have hna := ha.navigable
  have hnb := hb.navigable
  have hwalk : ∀ {name l r}, a.functions.get? name = some l → b.functions.get? name = some r →
      (a.differencesIn b name = [] ↔ ∃ R, Bisimulation a.graph b.graph R ∧ R l r) := by
    intro name l r hl hr
    unfold differencesIn
    simp only [hl, hr]
    exact Pairing.walk_differences_eq_nil_iff hna.discerning hnb.discerning hna.successor_lt
      hnb.successor_lt (hna.entry_lt hl) (hnb.entry_lt hr)
  unfold Comparison.isIdentical compare
  rw [List.isEmpty_iff, List.flatMap_eq_nil_iff]
  constructor
  · intro hnil
    refine ⟨fun name => ?_, fun name l r hl hr => (hwalk hl hr).1 (hnil name ?_)⟩
    · by_cases hname : name ∈ a.unitedNames b
      · exact mem_keys_iff_of_differencesIn (hnil name hname)
      · rw [mem_unitedNames_iff, not_or] at hname
        exact iff_of_false hname.1 hname.2
    · exact mem_unitedNames_iff.2 (.inl (SortedMap.mem_keys_iff.2 (by rw [hl]; rfl)))
  · rintro ⟨hnames, hfunctions⟩ name hname
    have hboth : name ∈ a.functions.keys ∧ name ∈ b.functions.keys :=
      (mem_unitedNames_iff.1 hname).elim (fun hl => ⟨hl, (hnames name).1 hl⟩)
        fun hr => ⟨(hnames name).2 hr, hr⟩
    obtain ⟨l, hl⟩ := Option.isSome_iff_exists.1 (SortedMap.mem_keys_iff.1 hboth.1)
    obtain ⟨r, hr⟩ := Option.isSome_iff_exists.1 (SortedMap.mem_keys_iff.1 hboth.2)
    exact (hwalk hl hr).2 (hfunctions name l r hl hr)

/-- A trace with a call in a loop, held against itself. -/
theorem compare_isIdentical_iff_loop :
    let m := ofTrace { profile := .gameBoy } (Utf8.encode ("PC: 100 | OPCODE: CD\n" ++
      "PC: 200 | OPCODE: C9\nPC: 103 | OPCODE: 18\nPC: 100 | OPCODE: CD\n" ++
      "PC: 200 | OPCODE: C9\nPC: 103 | OPCODE: 18\n"))
    Extracted m ∧ (m.compare m).isIdentical = true := by
  intro m
  have hm : Extracted m := extracted_ofTrace ..
  refine ⟨hm, (compare_isIdentical_iff hm hm).2 ⟨fun _ => .rfl, fun name l r hl hr => ?_⟩⟩
  obtain rfl : l = r := Option.some.inj (hl.symm.trans hr)
  refine ⟨Eq, ⟨?_, ?_, ?_, ?_⟩, rfl⟩
  · rintro l _ rfl
    exact List.forall₂_same.2 fun i _ => .refl i
  · rintro l _ rfl
    rfl
  · rintro l _ rfl n
    rfl
  · rintro l _ x y rfl hx hy hname
    exact hm.navigable.discerning l x y hx hy hname

end FunctionMap

end TraceFlow
