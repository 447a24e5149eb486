/-
TraceFlow.Proofs.Comparison.Symmetry — comparing in the other order finds
the same differences with sides swapped.

The two sides of a walk are treated unlike one another: names on the left
are looked up on the right, what is left over there comes last, and a stack
turns the order round. So the walk the other way is not the mirror image,
and the reports cannot be compared place by place.

* `mem_paired_iff_named` says without sides which places follow a pair: one
  for each name of a successor on either side, by what the name stands for
  on each. In this form swapping is evident (`named_swap`), and so the places
  that follow a swapped pair are the swapped ones (`mem_next_swap`).
* A traversal whose successors are images of those of another visits the
  images, in some order (`Traversal.visit_perm_map`). That gives
  `perm_walk_swap`, and what differs at a place is the same seen from both
  sides (`differences_swap`).
* Within a report the functions come in the order of their names, and those
  are one list for both ways (`unitedNames_comm`). So the parts of the two
  reports that are about one function are permutations of each other
  (`perm_differencesIn_swap`), and the order of functions is the same.

`Swapped` states it part by part, with the counts; `compare_swap` holds of
any two maps, whether a trace led to them or not.
-/
import TraceFlow.Proofs.Comparison

namespace TraceFlow

theorem Block.SameContent.symm {a b : Block} (h : a.SameContent b) : b.SameContent a :=
  ⟨h.1.symm, h.2.symm⟩

@[simp] theorem Difference.swap_swap (d : Difference) : d.swap.swap = d := by
  have hside : ∀ side : Side, side.swap.swap = side := fun side => by cases side <;> rfl
  cases d <;> simp [swap, hside]

@[simp] theorem Difference.function_swap (d : Difference) : d.swap.function = d.function := by
  cases d <;> rfl

namespace Pairing

variable {g h : Graph} {l r : BlockId} {P Q : Pairing} {lefts rights : SortedMap String BlockId}

/-- The same place seen from the other side. -/
def swap : Pairing → Pairing
  | .both l r => .both r l
  | .left l => .right l
  | .right r => .left r

@[simp] theorem swap_swap (P : Pairing) : P.swap.swap = P := by
  cases P <;> rfl

/-- Places that look alike from the other side are the same. -/
theorem swap_injective : Function.Injective swap := fun P Q heq => by
  rw [← swap_swap P, heq, swap_swap]

/-! ## One step of the walk -/

/-- The place behind a name, by what it names on each side. -/
def named : Option BlockId → Option BlockId → Option Pairing
  | some l, some r => some (.both l r)
  | some l, none => some (.left l)
  | none, some r => some (.right r)
  | none, none => none

/-- A name stands for the same place, seen from the other side. -/
theorem named_swap (l r : Option BlockId) : named r l = (named l r).map swap := by
  cases l <;> cases r <;> rfl

/-- The places that follow a pair are those behind the names of successors on either side. -/
theorem mem_paired_iff_named :
    P ∈ paired lefts rights ↔ ∃ n, named (lefts.get? n) (rights.get? n) = some P := by
  rw [mem_paired_iff]
  constructor
  · rintro (⟨n, x, hx, rfl⟩ | ⟨n, y, hy, hx, rfl⟩)
    · refine ⟨n, ?_⟩
      unfold ofLeft
      rw [hx]
      cases rights.get? n <;> rfl
    · exact ⟨n, by rw [hx, hy]; rfl⟩
  · rintro ⟨n, hn⟩
    cases hx : lefts.get? n with
    | some x =>
      refine .inl ⟨n, x, hx, ?_⟩
      unfold ofLeft
      rw [hx] at hn
      cases hy : rights.get? n <;> rw [hy] at hn <;> exact (Option.some.inj hn).symm
    | none =>
      cases hy : rights.get? n with
      | some y =>
        rw [hx, hy] at hn
        exact .inr ⟨n, y, hy, hx, (Option.some.inj hn).symm⟩
      | none =>
        rw [hx, hy] at hn
        cases hn

/-- What follows the same place the other way are the same places. -/
theorem mem_next_swap (P Q : Pairing) : Q ∈ next h g P.swap ↔ Q ∈ (next g h P).map swap := by
  cases P with
  | both l r =>
    rw [swap, next, next]
    by_cases hlt : l < g.size ∧ r < h.size
    · rw [if_pos hlt, if_pos hlt.symm, List.mem_reverse, List.map_reverse, List.mem_reverse,
        mem_paired_iff_named, List.mem_map]
      simp only [mem_paired_iff_named]
      constructor
      · rintro ⟨n, hn⟩
        rw [named_swap] at hn
        obtain ⟨P, hP, rfl⟩ := Option.map_eq_some_iff.1 hn
        exact ⟨P, ⟨n, hP⟩, rfl⟩
      · rintro ⟨P, ⟨n, hP⟩, rfl⟩
        exact ⟨n, by rw [named_swap, hP]; rfl⟩
    · rw [if_neg hlt, if_neg fun hgt => hlt hgt.symm]
      rfl
  | left l =>
    rw [swap, next, next, List.map_reverse, List.map_map]
    rfl
  | right r =>
    rw [swap, next, next, List.map_reverse, List.map_map]
    rfl

/-! ## Walks -/

/-- The walk the other way visits the same places. -/
theorem perm_walk_swap (g h : Graph) (l r : BlockId) :
    (walk h g r l).Perm ((walk g h l r).map swap) :=
  Traversal.visit_perm_map swap_injective mem_next_swap (.both l r)

/-- What differs at a place, differs there from the other side. -/
theorem differences_swap (f : String) (g h : Graph) (P : Pairing) :
    differences f h g P.swap = (differences f g h P).map Difference.swap := by
  cases P with
  | both l r =>
    rw [swap, differences, differences]
    by_cases hsame : (g.block l).SameContent (h.block r)
    · rw [if_pos hsame, if_pos hsame.symm]
      rfl
    · rw [if_neg hsame, if_neg fun hback => hsame hback.symm]
      rfl
  | left l => rfl
  | right r => rfl

end Pairing

namespace FunctionMap

open TraceFlow.Graph

variable {a b m : FunctionMap} {name : String}

/-! ## Reports by function -/

/-- Both comparisons go through the same names. -/
theorem unitedNames_comm (a b : FunctionMap) : b.unitedNames a = a.unitedNames b := by
  unfold unitedNames
  refine congrArg NameSet.names (SortedMap.ext_get? fun n => ?_)
  have hmem : ∀ ns : List String,
      (NameSet.ofNames ns).get? n = if n ∈ ns then some () else none := by
    intro ns
    have hkeys := SortedMap.mem_keys_iff (m := NameSet.ofNames ns) (k := n)
    rw [← NameSet.names, NameSet.mem_names_ofNames] at hkeys
    split
    · rename_i hn
      exact Option.eq_some_iff_get_eq.2 ⟨hkeys.1 hn, rfl⟩
    · rename_i hn
      exact Option.not_isSome_iff_eq_none.1 fun hsome => hn (hkeys.2 hsome)
  simp only [hmem, List.mem_append, or_comm]

theorem nodup_unitedNames (a b : FunctionMap) : (a.unitedNames b).Nodup := SortedMap.nodup_keys _

theorem function_of_mem_differencesIn {d : Difference} (hd : d ∈ a.differencesIn b name) :
    d.function = name := by
  unfold differencesIn at hd
  split at hd
  · obtain ⟨P, -, hP⟩ := List.mem_flatMap.1 hd
    cases P with
    | both l r =>
      rw [Pairing.differences] at hP
      split at hP
      · cases hP
      · rw [List.mem_singleton.1 hP]
        rfl
    | left l => rw [List.mem_singleton.1 hP]; rfl
    | right r => rw [List.mem_singleton.1 hP]; rfl
  · rw [List.mem_singleton.1 hd]; rfl
  · rw [List.mem_singleton.1 hd]; rfl
  · cases hd

/-- What a report tells of a function is what was found in it. -/
theorem forFunction_compare (a b : FunctionMap) (name : String) :
    (a.compare b).forFunction name = a.differencesIn b name := by
  have hfilter : ∀ n, (a.differencesIn b n).filter (fun d => d.function = name) =
      if n = name then a.differencesIn b name else [] := by
    intro n
    split
    · rename_i heq
      subst heq
      exact List.filter_eq_self.2 fun d hd => by simpa using function_of_mem_differencesIn hd
    · rename_i hne
      refine List.filter_eq_nil_iff.2 fun d hd => ?_
      simpa [function_of_mem_differencesIn hd] using hne
  have hall : ∀ names : List String, names.Nodup →
      (names.flatMap (a.differencesIn b)).filter (fun d => d.function = name) =
        if name ∈ names then a.differencesIn b name else [] := by
    intro names hnames
    induction names with
    | nil => rfl
    | cons n names ih =>
      obtain ⟨hfirst, hrest⟩ := List.nodup_cons.1 hnames
      rw [List.flatMap_cons, List.filter_append, hfilter, ih hrest]
      by_cases hn : n = name
      · subst hn
        simp [hfirst]
      · simp [hn, Ne.symm hn]
  unfold Comparison.forFunction compare
  rw [hall _ (nodup_unitedNames a b)]
  split
  · rfl
  · rename_i hnone
    rw [mem_unitedNames_iff, not_or, SortedMap.mem_keys_iff, SortedMap.mem_keys_iff,
      Option.not_isSome_iff_eq_none, Option.not_isSome_iff_eq_none] at hnone
    unfold differencesIn
    rw [hnone.1, hnone.2]

/-- Of one function both find the same, up to order and sides. -/
theorem perm_differencesIn_swap (a b : FunctionMap) (name : String) :
    (b.differencesIn a name).Perm ((a.differencesIn b name).map Difference.swap) := by
  unfold differencesIn
  cases a.functions.get? name with
  | none => cases b.functions.get? name <;> exact .refl _
  | some l =>
    cases b.functions.get? name with
    | none => exact .refl _
    | some r =>
      have hwalk := Pairing.perm_walk_swap a.graph b.graph l r
      refine (hwalk.flatMap_right _).trans (.of_eq ?_)
      rw [List.flatMap_map, List.map_flatMap]
      simp only [Pairing.differences_swap]

/-! ## Two reports -/

/-- Two reports that tell the same of every function, in some order and with sides swapped, and go
through the functions in the same order. -/
structure Swapped (c d : Comparison) (names : List String) : Prop where
  ordered : c.differences = names.flatMap c.forFunction
  ordered_swap : d.differences = names.flatMap d.forFunction
  perm : ∀ name, (d.forFunction name).Perm ((c.forFunction name).map Difference.swap)
  count : d.count = c.count
  count_in : ∀ name, (d.forFunction name).length = (c.forFunction name).length
  functionsCompared : d.functionsCompared = c.functionsCompared

theorem differences_eq_flatMap (a b : FunctionMap) :
    (a.compare b).differences = (a.unitedNames b).flatMap (a.compare b).forFunction :=
  congrArg (a.unitedNames b).flatMap (funext fun name => (forFunction_compare a b name).symm)

/-- **A comparison the other way finds the same differences with sides swapped**, function by
function: both reports go through the functions of either map in ascending order, and tell the
same of each, in some order. This needs no assumption about the maps; in those that traces lead to,
no two successors of a block have one name. -/
theorem compare_swap (a b : FunctionMap) :
    Swapped (a.compare b) (b.compare a) (a.unitedNames b) ∧
      (a.unitedNames b).Pairwise (fun n n' => n < n') ∧
      (∀ name, name ∈ a.unitedNames b ↔ name ∈ a.functions.keys ∨ name ∈ b.functions.keys) ∧
      ∀ m, Extracted m → Discerning m.graph := by
  have hperm : ∀ name, ((b.compare a).forFunction name).Perm
      (((a.compare b).forFunction name).map Difference.swap) := by
    intro name
    rw [forFunction_compare, forFunction_compare]
    exact perm_differencesIn_swap a b name
  have hswapped := differences_eq_flatMap b a
  have hlength : ∀ name, ((b.compare a).forFunction name).length =
      ((a.compare b).forFunction name).length := fun name =>
    (hperm name).length_eq.trans (List.length_map ..)
  rw [unitedNames_comm] at hswapped
  refine ⟨⟨differences_eq_flatMap a b, hswapped, hperm, ?_, hlength, ?_⟩, ?_,
    fun name => mem_unitedNames_iff, fun m hm => hm.navigable.discerning⟩
  · unfold Comparison.count
    rw [hswapped, differences_eq_flatMap a b, List.length_flatMap, List.length_flatMap]
    simp only [hlength]
  · show (b.unitedNames a).countP (b.bothHave a) = (a.unitedNames b).countP (a.bothHave b)
    rw [unitedNames_comm]
    exact congrArg (List.countP · _) (funext fun name => Bool.and_comm _ _)
  · refine List.Pairwise.map _ (fun e e' hlt => ?_) (SortedMap.ordered _)
    exact compareOfLessAndEq_eq_lt.1 hlt

/-- A trace that branches back and one that goes on, held against each other both ways. -/
theorem compare_swap_branch :
    let s : Setup := { profile := .gameBoy }
    let a := ofTrace s (Utf8.encode
      "PC: 100 | OPCODE: 20\nPC: 100 | OPCODE: 20\nPC: 102 | OPCODE: 00\n")
    let b := ofTrace s (Utf8.encode "PC: 100 | OPCODE: 20\nPC: 104 | OPCODE: 00\n")
    Swapped (a.compare b) (b.compare a) (a.unitedNames b) ∧
      Extracted a ∧ Extracted b ∧ Discerning a.graph ∧ Discerning b.graph := by
  intro s a b
  have ha : Extracted a := extracted_ofTrace ..
  have hb : Extracted b := extracted_ofTrace ..
  obtain ⟨hswapped, -, -, hdiscerning⟩ := compare_swap a b
  exact ⟨hswapped, ha, hb, hdiscerning a ha, hdiscerning b hb⟩

end FunctionMap

end TraceFlow
