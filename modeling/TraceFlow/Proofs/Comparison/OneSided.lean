/-
TraceFlow.Proofs.Comparison.OneSided — which blocks a comparison reports to
be reachable on one side only.

The report is about a walk, and its words are about reachability. The two
differ, so the module says first what the report means in terms of graphs,
and then when its words are true.

* `Trail g a names b` is a path of edges from `a` to `b`, told by the names
  of the blocks that it enters. In a graph that tells successors apart, a
  trail can be followed by its names alone.
* A walk over two graphs goes on alone where the other side has no successor
  of a name, and never comes back: alone on the left it follows edges of the
  left graph (`path_left_iff`), and it never changes sides
  (`not_path_right_left`). So it visits a block alone exactly when some trail
  leads to the block that the other side cannot follow (`left_mem_walk_iff`;
  `exists_trail_of_path` and `path_of_trail` are the two directions, by
  induction on the path and on the trail).
* `Strays` is that condition for a function of two maps. The sides are
  exchanged by swapping (`mem_compare_swap_iff`), so everything is proved of
  the left one and `mem_oneSided_iff` serves for both.

`one_sided_exact` states it, and with it what is true of the words: a block
that is reachable on one side only, by name, is reported
(`strays_of_leadsTo`), but a report may be about a block that another trail
reaches on the other side as well. `rejoined_end` is a pair of traces where
that happens, after two ways that end alike.
-/
import TraceFlow.Proofs.Comparison.Symmetry
import TraceFlow.Proofs.FunctionMap.Entries

namespace TraceFlow

namespace Graph

variable {g h : Graph} {a b c x y : BlockId} {n : String} {names : List String}

/-! ## Trails -/

/-- A path of edges from one block to another, by the names of the blocks that it enters. -/
inductive Trail (g : Graph) : BlockId → List String → BlockId → Prop where
  | here (a : BlockId) : Trail g a [] a
  | step {a b c : BlockId} {names : List String} (edge : b ∈ g.successors a)
      (trail : Trail g b names c) : Trail g a (g.name b :: names) c

/-- The first step of a trail. -/
theorem Trail.exists_of_cons (ht : g.Trail a (n :: names) c) :
    ∃ b ∈ g.successors a, g.name b = n ∧ g.Trail b names c := by
  generalize hnames : n :: names = ns at ht
  cases ht with
  | here => cases hnames
  | step edge ht =>
    obtain ⟨rfl, rfl⟩ := List.cons.inj hnames
    exact ⟨_, edge, rfl, ht⟩

/-- A trail is a path. -/
theorem Trail.reaches (ht : g.Trail a names b) : g.Reaches a b := by
  induction ht with
  | here => exact .here _
  | step edge _ ih => exact .step edge ih

/-- Every path has its trail. -/
theorem Reaches.exists_trail (hab : g.Reaches a b) : ∃ names, g.Trail a names b := by
  induction hab with
  | here a => exact ⟨[], .here a⟩
  | step edge _ ih =>
    obtain ⟨names, ht⟩ := ih
    exact ⟨_, .step edge ht⟩

/-- Trails of the same names from blocks of one name lead to blocks of one name. -/
theorem Trail.name_eq (ht : g.Trail a names x) :
    ∀ {b}, h.Trail b names y → g.name a = h.name b → g.name x = h.name y := by
  induction ht with
  | here =>
    intro b hb hname
    cases hb
    exact hname
  | step _ _ ih =>
    intro b hb _
    obtain ⟨c, -, hname, ht⟩ := hb.exists_of_cons
    exact ih ht hname.symm

/-- No successor is kept under a name that none has. -/
theorem get?_successorsByName_eq_none_iff :
    (g.successorsByName a).get? n = none ↔ ∀ x ∈ g.successors a, g.name x ≠ n := by
  constructor
  · rintro hnone x hx rfl
    obtain ⟨y, hy⟩ := exists_get?_successorsByName hx
    rw [hnone] at hy
    cases hy
  · intro hall
    refine Option.eq_none_iff_forall_ne_some.2 fun x hx => ?_
    obtain ⟨hmem, hname⟩ := mem_of_get?_successorsByName hx
    exact hall x hmem hname

end Graph

namespace Pairing

open TraceFlow.Graph

variable {g h : Graph} {l r x : BlockId} {P Q : Pairing} {names : List String}

/-! ## Where the walk goes on alone -/

/-- A pair of known blocks goes on by one place for each name. -/
theorem mem_next_both_iff : Q ∈ next g h (.both l r) ↔ (l < g.size ∧ r < h.size) ∧
    ∃ n, named ((g.successorsByName l).get? n) ((h.successorsByName r).get? n) = some Q := by
  rw [next]
  split
  · rename_i hlt
    rw [List.mem_reverse, mem_paired_iff_named, and_iff_right hlt]
  · rename_i hge
    exact iff_of_false List.not_mem_nil fun hlt => hge hlt.1

/-- A walk that goes on alone on the left visits whatever trails lead to, and nothing else. -/
theorem path_left_iff :
    Traversal.Path (next g h) (.left l) P ↔ ∃ names x, g.Trail l names x ∧ P = .left x := by
  constructor
  · intro hpath
    refine hpath.closed (P := fun P => ∃ names x, g.Trail l names x ∧ P = .left x) ?_
      ⟨[], l, .here l, rfl⟩
    rintro _ ⟨names, x, ht, rfl⟩ Q hQ
    obtain ⟨y, hy, rfl⟩ := List.mem_map.1 (List.mem_reverse.1 hQ)
    obtain ⟨names, ht⟩ := (ht.reaches.trans (.step hy (.here y))).exists_trail
    exact ⟨names, y, ht, rfl⟩
  · rintro ⟨names, x, ht, rfl⟩
    induction ht with
    | here => exact .here _
    | step edge _ ih => exact .step (List.mem_reverse.2 (List.mem_map_of_mem edge)) ih

/-- A walk that goes on alone on the right stays there. -/
theorem not_path_right_left : ¬Traversal.Path (next g h) (.right r) (.left x) := by
  intro hpath
  obtain ⟨y, hy⟩ := hpath.closed (P := fun P => ∃ y, P = .right y) (by
    rintro _ ⟨y, rfl⟩ Q hQ
    obtain ⟨z, -, rfl⟩ := List.mem_map.1 (List.mem_reverse.1 hQ)
    exact ⟨z, rfl⟩) ⟨r, rfl⟩
  cases hy

/-- Whatever the walk visits alone, a trail leads to that the other side cannot follow. -/
theorem exists_trail_of_path (hh : Discerning h)
    (hpath : Traversal.Path (next g h) (.both l r) (.left x)) :
    ∃ names, g.Trail l names x ∧ ∀ y, ¬h.Trail r names y := by
  generalize hP : Pairing.both l r = P at hpath
  generalize hQ : Pairing.left x = Q at hpath
  induction hpath generalizing l r with
  | here =>
    rw [← hQ] at hP
    cases hP
  | step edge path ih =>
    subst hP hQ
    obtain ⟨-, n, hn⟩ := mem_next_both_iff.1 edge
    cases hl : (g.successorsByName l).get? n with
    | some u =>
      obtain ⟨hu, rfl⟩ := mem_of_get?_successorsByName hl
      cases hr : (h.successorsByName r).get? (g.name u) with
      | some v =>
        -- the walk goes on in both graphs
        rw [hl, hr] at hn
        obtain ⟨names, ht, hnot⟩ := ih (Option.some.inj hn) rfl
        refine ⟨_, .step hu ht, fun y hy => ?_⟩
        obtain ⟨w, hw, hname, hy⟩ := hy.exists_of_cons
        rw [← hname, hh.get?_successorsByName hw] at hr
        exact hnot y (Option.some.inj hr ▸ hy)
      | none =>
        rw [hl, hr] at hn
        rw [← Option.some.inj hn] at path
        obtain ⟨names, x, ht, heq⟩ := path_left_iff.1 path
        cases heq
        refine ⟨_, .step hu ht, fun y hy => ?_⟩
        obtain ⟨w, hw, hname, -⟩ := hy.exists_of_cons
        exact get?_successorsByName_eq_none_iff.1 hr w hw hname
    | none =>
      rw [hl] at hn
      cases hr : (h.successorsByName r).get? n with
      | some v =>
        rw [hr] at hn
        rw [← Option.some.inj hn] at path
        exact absurd path not_path_right_left
      | none =>
        rw [hr] at hn
        cases hn

/-- Where the other side cannot follow a trail, the walk goes on alone to its end. -/
theorem path_of_trail (hg : Discerning g) (hglt : ∀ {a b}, b ∈ g.successors a → b < g.size)
    (hhlt : ∀ {a b}, b ∈ h.successors a → b < h.size) (ht : g.Trail l names x) :
    ∀ {r}, l < g.size → r < h.size → (∀ y, ¬h.Trail r names y) →
      Traversal.Path (next g h) (.both l r) (.left x) := by
  induction ht with
  | here => exact fun _ _ hnot => absurd (.here _) (hnot _)
  | @step a u x names edge trail ih =>
    intro r hl hr hnot
    have hu := hg.get?_successorsByName edge
    cases hv : (h.successorsByName r).get? (g.name u) with
    | some v =>
      obtain ⟨hvmem, hname⟩ := mem_of_get?_successorsByName hv
      refine .step (mem_next_both_iff.2 ⟨⟨hl, hr⟩, g.name u, by rw [hu, hv]; rfl⟩) ?_
      exact ih (hglt edge) (hhlt hvmem) fun y hy => hnot y (hname ▸ .step hvmem hy)
    | none =>
      refine .step (mem_next_both_iff.2 ⟨⟨hl, hr⟩, g.name u, by rw [hu, hv]; rfl⟩) ?_
      exact path_left_iff.2 ⟨names, x, trail, rfl⟩

/-- A walk visits a block alone exactly when a trail leads to it that the other side cannot
follow. -/
theorem left_mem_walk_iff (hg : Discerning g) (hh : Discerning h)
    (hglt : ∀ {a b}, b ∈ g.successors a → b < g.size)
    (hhlt : ∀ {a b}, b ∈ h.successors a → b < h.size) (hl : l < g.size) (hr : r < h.size) :
    .left x ∈ walk g h l r ↔ ∃ names, g.Trail l names x ∧ ∀ y, ¬h.Trail r names y := by
  unfold walk
  rw [Traversal.mem_visit_iff]
  exact ⟨exists_trail_of_path hh, fun ⟨_, ht, hnot⟩ => path_of_trail hg hglt hhlt ht hl hr hnot⟩

end Pairing

/-- The map on a side. -/
def Side.of (a b : FunctionMap) : Side → FunctionMap
  | .left => a
  | .right => b

namespace FunctionMap

open TraceFlow.Graph

variable {a b m : FunctionMap} {e : BlockId} {f n t : String} {side : Side} {d : Difference}

/-! ## Reports of blocks on one side -/

/-- Some block of the name `n` is reachable from the entry of the function `f`. -/
def LeadsTo (m : FunctionMap) (f n : String) : Prop :=
  ∃ e x, m.functions.get? f = some e ∧ m.graph.Reaches e x ∧ m.graph.name x = n

/-- In the function `f` of `a`, some trail leads to a block of the name `n` and the listing `t` that
the function of `b` cannot follow. -/
def Strays (a b : FunctionMap) (f n t : String) : Prop :=
  ∃ l r names x, a.functions.get? f = some l ∧ b.functions.get? f = some r ∧
    a.graph.Trail l names x ∧ a.graph.name x = n ∧ a.graph.listing x = t ∧
      ∀ y, ¬b.graph.Trail r names y

/-- What every report of a block on one side says: a block of that name is reachable in the function
of that side, and none in the function of the other. -/
def OneSidedOnly (a b : FunctionMap) : Prop :=
  ∀ f n side t, .oneSided f n side t ∈ (a.compare b).differences →
    (side.of a b).LeadsTo f n ∧ ¬(side.swap.of a b).LeadsTo f n

theorem mem_compare_iff :
    d ∈ (a.compare b).differences ↔ d ∈ a.differencesIn b d.function := by
  rw [← forFunction_compare, Comparison.forFunction, List.mem_filter, decide_eq_true rfl,
    and_iff_left rfl]

/-- The comparison the other way reports the same, seen from the other side. -/
theorem mem_compare_swap_iff :
    d.swap ∈ (b.compare a).differences ↔ d ∈ (a.compare b).differences := by
  rw [mem_compare_iff, mem_compare_iff, Difference.function_swap,
    (perm_differencesIn_swap a b _).mem_iff,
    List.mem_map_of_injective (Function.Involutive.injective Difference.swap_swap)]

theorem mem_oneSided_left_iff (ha : Navigable a) (hb : Navigable b) :
    .oneSided f n .left t ∈ (a.compare b).differences ↔ Strays a b f n t := by
  rw [mem_compare_iff]
  unfold differencesIn Strays Difference.function
  cases hl : a.functions.get? f with
  | none => cases b.functions.get? f <;> simp
  | some l =>
    cases hr : b.functions.get? f with
    | none => simp
    | some r =>
      have hwalk := fun x => Pairing.left_mem_walk_iff (x := x) ha.discerning hb.discerning
        ha.successor_lt hb.successor_lt (ha.entry_lt hl) (hb.entry_lt hr)
      simp only [List.mem_flatMap, Option.some.injEq]
      constructor
      · rintro ⟨P, hP, hd⟩
        cases P with
        | both x y =>
          rw [Pairing.differences] at hd
          split at hd <;> simp at hd
        | left x =>
          obtain ⟨names, ht, hnot⟩ := (hwalk x).1 hP
          obtain ⟨-, rfl, -, rfl⟩ := Difference.oneSided.inj (List.mem_singleton.1 hd)
          exact ⟨l, r, names, x, rfl, rfl, ht, rfl, rfl, hnot⟩
        | right y => simp [Pairing.differences] at hd
      · rintro ⟨_, _, names, x, rfl, rfl, ht, rfl, rfl, hnot⟩
        exact ⟨.left x, (hwalk x).2 ⟨names, ht, hnot⟩, List.mem_singleton_self _⟩

/-- What is reported of one side, on either side. -/
theorem mem_oneSided_iff (ha : Navigable a) (hb : Navigable b) :
    .oneSided f n side t ∈ (a.compare b).differences ↔
      Strays (side.of a b) (side.swap.of a b) f n t := by
  cases side with
  | left => exact mem_oneSided_left_iff ha hb
  | right =>
    rw [← mem_compare_swap_iff]
    exact mem_oneSided_left_iff hb ha

/-- The entry of a function bears the function's name. -/
theorem Extracted.name_entry (h : Extracted m) (he : m.functions.get? f = some e) :
    m.graph.name e = f := by
  obtain ⟨s, r, hr, rfl⟩ := h
  have hentry : FunctionMap.entry? ((r.finish s.profile).functionMap s.profile) f = some e := by
    unfold FunctionMap.entry?
    rw [he]
    rfl
  exact (name_of_listed hr hentry).1

/-- What is reported of a side is at least reachable there. -/
theorem Strays.leadsTo (h : Strays a b f n t) : a.LeadsTo f n := by
  obtain ⟨l, -, names, x, hl, -, ht, rfl, -, -⟩ := h
  exact ⟨l, x, hl, ht.reaches, rfl⟩

/-- A trail to a block of a name that the other function does not have cannot be followed there. -/
theorem strays_of_leadsTo (ha : Extracted a) (hb : Extracted b)
    (hf : b.functions.contains f = true) (hleads : a.LeadsTo f n) (hnot : ¬b.LeadsTo f n) :
    ∃ t, Strays a b f n t := by
  obtain ⟨l, x, hl, hreach, rfl⟩ := hleads
  obtain ⟨r, hr⟩ := Option.isSome_iff_exists.1 hf
  obtain ⟨names, ht⟩ := hreach.exists_trail
  refine ⟨_, l, r, names, x, hl, hr, ht, rfl, rfl, fun y hy => hnot ⟨r, y, hr, hy.reaches, ?_⟩⟩
  exact (ht.name_eq hy ((ha.name_entry hl).trans (hb.name_entry hr).symm)).symm

/-- What a comparison reports to be reachable on one side. -/
structure OneSidedReports (a b : FunctionMap) : Prop where
  exact : ∀ {f n side t}, .oneSided f n side t ∈ (a.compare b).differences ↔
    Strays (side.of a b) (side.swap.of a b) f n t
  reached : ∀ {f n side t}, .oneSided f n side t ∈ (a.compare b).differences →
    (side.of a b).LeadsTo f n
  found : ∀ {f n side}, (side.swap.of a b).functions.contains f = true →
    (side.of a b).LeadsTo f n → ¬(side.swap.of a b).LeadsTo f n →
      ∃ t, .oneSided f n side t ∈ (a.compare b).differences

/-- **A block is reported on one side exactly when some trail leads to it that the other side cannot
follow** by names. So each block that is reported is reachable in the function of its side, and a
block of a name that the other function does not have is reported; but a block that is reported may
well have a namesake in the other function, where another trail leads. -/
theorem one_sided_exact (ha : Extracted a) (hb : Extracted b) : OneSidedReports a b := by
  have hexact : ∀ {f n side t}, .oneSided f n side t ∈ (a.compare b).differences ↔
      Strays (side.of a b) (side.swap.of a b) f n t :=
    mem_oneSided_iff ha.navigable hb.navigable
  have hside : ∀ side : Side, Extracted (side.of a b) := fun side => by
    cases side
    · exact ha
    · exact hb
  refine ⟨hexact, fun h => (hexact.1 h).leadsTo, fun {f n side} hf hleads hnot => ?_⟩
  obtain ⟨t, ht⟩ := strays_of_leadsTo (hside side) (hside side.swap) hf hleads hnot
  exact ⟨t, hexact.2 ht⟩

/-! ## Two ways to one end -/

/-- A trace that goes from a relative jump to an address and ends. -/
def jumpTo (pc : String) : List UInt8 :=
  Utf8.encode ("PC: 0100 | OPCODE: 20 | MEM: 02\nPC: " ++ pc ++ " | OPCODE: 00\n")

/-- Its one function is a straight line. -/
theorem jumpTo_straight {pc : String} (hpc : pc ∈ ["0102", "0104"]) :
    let m := ofTrace { profile := .gameBoy } (jumpTo pc)
    m.functions.get? "loc_10000S" = some 0 ∧ m.graph.name 3 = "loc_10001S" ∧
      m.graph.Trail 0 ["loc_0100", "loc_" ++ pc, "loc_10001S"] 3 ∧
      ∀ n n' names y, m.graph.Trail 0 (n :: n' :: names) y → n' = "loc_" ++ pc := by
  intro m
  have hr : Recorder.Reached _ (Recording.follow { profile := .gameBoy } (jumpTo pc)) :=
    Recorder.Reached.new.feedLines _
  have hexact : Exact (Recording.ofTrace { profile := .gameBoy } (jumpTo pc)) m :=
    exact_functionMap hr
  have hsame : SameEdges ((Recording.ofTrace { profile := .gameBoy } (jumpTo pc)).extraction
      .gameBoy).merged.graph m.graph := sameEdges_functionMap hr.sound
  have hname : ∀ id, m.graph.name id = _ :=
    (hr.sound.raw_finish.claimable.mergeStraightLines .gameBoy).claimed.name
  -- the division does not compute
  have hcomputed : ∀ pc ∈ ["0102", "0104"],
      let raw := Recording.ofTrace { profile := .gameBoy } (jumpTo pc)
      let joined := (raw.extraction .gameBoy).merged.graph
      raw.start = 0 ∧ raw.graph.name 0 = "loc_10000S" ∧
        (joined.successors 0 = [1] ∧ joined.successors 1 = [2] ∧ joined.successors 2 = [3]) ∧
        joined.name 1 = "loc_0100" ∧ joined.name 2 = "loc_" ++ pc ∧
          joined.name 3 = "loc_10001S" := by
    decide +kernel
  obtain ⟨hstart, hentry, ⟨h₀, h₁, h₂⟩, hn₁, hn₂, hn₃⟩ := hcomputed pc hpc
  rw [← hsame.successors] at h₀ h₁ h₂
  have hn₁ := (hname 1).trans hn₁
  have hn₂ := (hname 2).trans hn₂
  have hn₃ := (hname 3).trans hn₃
  refine ⟨hentry ▸ hstart ▸ hexact.start, hn₃, ?_, fun n n' names y hy => ?_⟩
  · have hlast : m.graph.Trail 2 [m.graph.name 3] 3 := .step (by rw [h₂]; simp) (.here 3)
    rw [← hn₁, ← hn₂, ← hn₃]
    exact .step (by rw [h₀]; simp) (.step (by rw [h₁]; simp) hlast)
  · obtain ⟨x, hx, -, hy⟩ := hy.exists_of_cons
    rw [h₀, List.mem_singleton] at hx
    obtain ⟨z, hz, rfl, -⟩ := hy.exists_of_cons
    rw [hx, h₁, List.mem_singleton] at hz
    rw [hz, hn₂]

theorem jumpTo_leadsTo {pc : String} (hpc : pc ∈ ["0102", "0104"]) :
    (ofTrace { profile := .gameBoy } (jumpTo pc)).LeadsTo "loc_10000S" "loc_10001S" := by
  obtain ⟨hentry, hname, htrail, -⟩ := jumpTo_straight hpc
  exact ⟨0, 3, hentry, htrail.reaches, hname⟩

theorem jumpTo_strays {pc pc' : String} (hpc : pc ∈ ["0102", "0104"])
    (hpc' : pc' ∈ ["0102", "0104"]) (hne : "loc_" ++ pc ≠ "loc_" ++ pc') :
    ∃ t, Strays (ofTrace { profile := .gameBoy } (jumpTo pc))
      (ofTrace { profile := .gameBoy } (jumpTo pc')) "loc_10000S" "loc_10001S" t := by
  obtain ⟨hentry, hname, htrail, -⟩ := jumpTo_straight hpc
  obtain ⟨hentry', -, -, honly⟩ := jumpTo_straight hpc'
  exact ⟨_, 0, 0, _, 3, hentry, hentry', htrail, hname, rfl,
    fun y hy => hne (honly _ _ _ y hy)⟩

/-- The functions of two traces that leave a jump for different addresses. -/
theorem one_sided_exact_jump :
    let s : Setup := { profile := .gameBoy }
    let a := ofTrace s (jumpTo "0102")
    let b := ofTrace s (jumpTo "0104")
    Extracted a ∧ Extracted b ∧ OneSidedReports a b ∧
      ∃ t, .oneSided "loc_10000S" "loc_10001S" .left t ∈ (a.compare b).differences := by
  intro s a b
  have ha : Extracted a := extracted_ofTrace ..
  have hb : Extracted b := extracted_ofTrace ..
  have hreports := one_sided_exact ha hb
  obtain ⟨t, ht⟩ : ∃ t, Strays a b "loc_10000S" "loc_10001S" t :=
    jumpTo_strays (by simp) (by simp) (by decide)
  exact ⟨ha, hb, hreports, t, hreports.exact.2 ht⟩

/-- Both traces go to the end, and each side is reported to be the only one from which it is
reachable. -/
theorem rejoined_end :
    let s : Setup := { profile := .gameBoy }
    let a := ofTrace s (jumpTo "0102")
    let b := ofTrace s (jumpTo "0104")
    (∀ side : Side, ∃ t,
      .oneSided "loc_10000S" "loc_10001S" side t ∈ (a.compare b).differences) ∧
      (∀ side : Side, (side.of a b).LeadsTo "loc_10000S" "loc_10001S") ∧ ¬OneSidedOnly a b := by
  intro s a b
  have hreported : ∀ side : Side, ∃ t,
      .oneSided "loc_10000S" "loc_10001S" side t ∈ (a.compare b).differences := by
    intro side
    have hstrays : ∃ t, Strays (side.of a b) (side.swap.of a b) "loc_10000S" "loc_10001S" t := by
      cases side <;> exact jumpTo_strays (by simp) (by simp) (by decide)
    obtain ⟨t, ht⟩ := hstrays
    exact ⟨t, (mem_oneSided_iff (extracted_ofTrace ..).navigable
      (extracted_ofTrace ..).navigable).2 ht⟩
  have hleads : ∀ side : Side, (side.of a b).LeadsTo "loc_10000S" "loc_10001S" := by
    intro side
    cases side <;> exact jumpTo_leadsTo (by simp)
  refine ⟨hreported, hleads, fun honly => ?_⟩
  obtain ⟨t, ht⟩ := hreported .left
  exact (honly _ _ _ _ ht).2 (hleads .right)

end FunctionMap

end TraceFlow
