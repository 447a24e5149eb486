/-
TraceFlow.Proofs.Graph.Settling — joining until nothing changes.

Two questions are open about the loop over passes, apart from what a join
does: that it ends where it should, and how many passes it takes. It does
terminate as a function, on the number of blocks that were not absorbed.

* `Joins` is one join of a block with its candidate, with the count of
  joins beside the graph. Every loop is a run of them (`mergePasses_joins`),
  so whatever is said of joins one by one holds of the whole.
* A graph is `Quiet` when no block that its index lists has a candidate. The
  loop stops when a pass has made no join. That this makes the graph quiet
  is `Quiet.of_count_eq`: such a pass leaves the graph alone, turn by turn,
  so every block was tried on the very graph that the pass leaves
  (`turns_count`, by induction on the blocks that are left; counts only
  grow, so if the whole made no join, no turn did).
* Conversely a pass over a quiet graph makes no join (`mergePass_of_quiet`),
  so another run changes nothing (`mergePasses_of_quiet`).

`mergePasses_quiet` and `mergePasses_iterate` follow the recursion of the
loop over passes: it ends in a quiet graph, whatever edges there are, and
every pass but the last has made a join, which bounds their number.
-/
import Mathlib.Logic.Function.Iterate
import Mathlib.Logic.Relation
import TraceFlow.Proofs.Graph.Catalogue
import TraceFlow.Proofs.Graph.Passes

namespace TraceFlow.Graph

variable {g : Graph} {p : Profile} {m m' : Merged} {id : BlockId}

/-! ## Runs of joins -/

/-- One join of a block with the candidate that it has at that moment. -/
def Joins (p : Profile) (m m' : Merged) : Prop :=
  ∃ id next, m.graph.MergeCandidate p id next ∧ m' = ⟨m.graph.absorb id next, m.count + 1⟩

/-- The joins of one block are a run of joins. -/
theorem mergeFrom_joins (p : Profile) (id : BlockId) (m : Merged) :
    Relation.ReflTransGen (Joins p) m (mergeFrom p id m) := by
  fun_induction mergeFrom p id m with
  | case1 => exact .refl
  | case2 m next h ih => exact .head ⟨id, next, mergeCandidate?_eq_some_iff.1 h, rfl⟩ ih

/-- So are those of one pass. -/
theorem mergePass_joins (p : Profile) (m : Merged) :
    Relation.ReflTransGen (Joins p) m (mergePass p m) := by
  refine List.foldlRecOn (motive := Relation.ReflTransGen (Joins p) m) _ _ .refl
    fun m' hm' id _ => ?_
  split
  · exact hm'.trans (mergeFrom_joins p id m')
  · exact hm'

/-- All joins are made one after another. -/
theorem mergePasses_joins (p : Profile) (m : Merged) :
    Relation.ReflTransGen (Joins p) m (mergePasses p m) := by
  fun_induction mergePasses p m with
  | case1 m m' _ => exact mergePass_joins p m
  | case2 m m' _ ih => exact (mergePass_joins p m).trans ih

/-! ## Quiet graphs -/

/-- No block that the index lists may absorb another. -/
def Quiet (p : Profile) (g : Graph) : Prop :=
  ∀ id, g.isIndexed id = true → g.mergeCandidate? p id = none

/-- A block without a candidate makes no join. -/
theorem mergeFrom_of_none (h : m.graph.mergeCandidate? p id = none) : mergeFrom p id m = m := by
  rw [mergeFrom]
  split
  · rfl
  · rename_i next hsome
    rw [h] at hsome
    cases hsome

/-- A block that is joined with none has no candidate. -/
theorem mergeCandidate?_of_count_eq (h : (mergeFrom p id m).count = m.count) :
    m.graph.mergeCandidate? p id = none := by
  cases hc : m.graph.mergeCandidate? p id with
  | none => rfl
  | some next =>
    have hmore := (mergeFrom_balance p id ⟨m.graph.absorb id next, m.count + 1⟩).2
    rw [mergeFrom] at h
    split at h
    · rename_i hnone
      rw [hc] at hnone
      cases hnone
    · rename_i next' hsome
      obtain rfl : next = next' := Option.some.inj (hc.symm.trans hsome)
      exact absurd (h ▸ hmore) (Nat.not_succ_le_self _)

/-- The turn of one block in a pass. -/
def turn (p : Profile) (m : Merged) (id : BlockId) : Merged :=
  if m.graph.isIndexed id then mergeFrom p id m else m

/-- A pass gives each block that was listed its turn. -/
theorem mergePass_eq (p : Profile) (m : Merged) :
    mergePass p m = m.graph.indexed.foldl (turn p) m := rfl

/-- No turn takes a join back. -/
theorem count_le_turn (p : Profile) (m : Merged) (id : BlockId) :
    m.count ≤ (turn p m id).count := by
  unfold turn
  split
  · exact (mergeFrom_balance p id m).2
  · exact Nat.le_refl _

/-- A turn without a join changes nothing, as the block had no candidate. -/
theorem turn_of_count_eq (h : (turn p m id).count = m.count) :
    turn p m id = m ∧ (m.graph.isIndexed id = true → m.graph.mergeCandidate? p id = none) := by
  unfold turn at h ⊢
  split
  · rename_i hid
    rw [if_pos hid] at h
    have hnone := mergeCandidate?_of_count_eq h
    exact ⟨mergeFrom_of_none hnone, fun _ => hnone⟩
  · rename_i hid
    exact ⟨rfl, fun hid' => absurd hid' hid⟩

/-- No turn takes a join back; turns that make none find the graph as it was. -/
theorem turns_count (p : Profile) :
    ∀ (ids : List BlockId) (m : Merged), m.count ≤ (ids.foldl (turn p) m).count ∧
      ((ids.foldl (turn p) m).count = m.count →
        ∀ id ∈ ids, m.graph.isIndexed id = true → m.graph.mergeCandidate? p id = none)
  | [], m => ⟨Nat.le_refl _, fun _ id hid => by cases hid⟩
  | x :: ids, m => by
    have hfirst := count_le_turn p m x
    obtain ⟨hrest, htried⟩ := turns_count p ids (turn p m x)
    rw [List.foldl_cons]
    refine ⟨Nat.le_trans hfirst hrest, fun hcount id hid => ?_⟩
    have hsame : (turn p m x).count = m.count :=
      Nat.le_antisymm (hcount ▸ hrest) hfirst
    obtain ⟨hturn, hx⟩ := turn_of_count_eq hsame
    rcases List.mem_cons.1 hid with rfl | hid
    · exact hx
    · rw [hturn] at htried hcount
      exact htried hcount id hid

/-- In a quiet graph no turn does anything. -/
theorem turns_of_quiet (h : Quiet p m.graph) :
    ∀ ids : List BlockId, ids.foldl (turn p) m = m
  | [] => rfl
  | x :: ids => by
    have hturn : turn p m x = m := by
      unfold turn
      split
      · rename_i hid
        exact mergeFrom_of_none (h x hid)
      · rfl
    rw [List.foldl_cons, hturn, turns_of_quiet h ids]

/-- A pass over a quiet graph makes no join. -/
theorem mergePass_of_quiet (h : Quiet p m.graph) : mergePass p m = m := by
  rw [mergePass_eq]
  exact turns_of_quiet h _

/-- A pass that makes no join tried every block of the index on the graph as it is. -/
theorem Quiet.of_count_eq (h : (mergePass p m).count = m.count) : Quiet p m.graph := by
  intro id hid
  have hlisted : id ∈ m.graph.indexed := by
    rw [mem_indexed_iff]
    exact ⟨_, List.contains_iff_mem.1 hid⟩
  rw [mergePass_eq] at h
  exact (turns_count p _ m).2 h id hlisted hid

/-! ## The last pass -/

/-- The passes end when no block that the index lists has a candidate. -/
theorem mergePasses_quiet (p : Profile) (m : Merged) : Quiet p (mergePasses p m).graph := by
  fun_induction mergePasses p m with
  | case1 m m' hcount =>
    have hquiet : Quiet p m.graph := .of_count_eq hcount
    rwa [show m' = m from mergePass_of_quiet hquiet]
  | case2 m m' _ ih => exact ih

/-- A quiet graph stays as it is. -/
theorem mergePasses_of_quiet (h : Quiet p m.graph) : mergePasses p m = m := by
  have hpass := mergePass_of_quiet h
  rw [mergePasses]
  simp only [hpass, if_true]

/-- Every pass but the last makes a join. -/
theorem mergePasses_iterate (p : Profile) (m : Merged) :
    ∃ n, m.count + n ≤ (mergePasses p m).count ∧ mergePasses p m = (mergePass p)^[n + 1] m := by
  fun_induction mergePasses p m with
  | case1 m m' hcount => exact ⟨0, Nat.le_of_eq hcount.symm, rfl⟩
  | case2 m m' hcount ih =>
    obtain ⟨n, hle, heq⟩ := ih
    have hmore : m.count + 1 ≤ m'.count :=
      Nat.lt_of_le_of_ne (mergePass_balance p m).2 fun h => hcount h.symm
    exact ⟨n + 1, by omega, heq⟩

end TraceFlow.Graph
