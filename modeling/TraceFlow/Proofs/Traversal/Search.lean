/-
TraceFlow.Proofs.Traversal.Search — a visit with a stack is the recursive
search.

`search next finite visited nodes` is depth-first search as it is usually
written: it goes through `nodes` in turn, one that was visited is skipped,
any other is visited, then its successors are searched, and what that
visited counts as visited from then on. It is the specification here, so it
is defined by recursion on itself, with a measure of two parts: the nodes
with successors that were not visited, and the length of the list. A node
without successors does not lessen the first part, but there is nothing to
search below it (`unvisited_cons`).

A visit keeps on its stack what recursion keeps in its calls. The lemma that
says so is `preorder_append`: visiting `pending` on top of `rest` is
searching `pending`, and then visiting `rest` with all of that seen. The
induction is along the recursion of the search. A node that is new puts its
successors on the stack, on top of its siblings, and there the induction is
used twice, for the successors with the siblings below them and then for the
siblings; a node may wait on the stack many times, as it counts as seen only
when it is taken off. The visit keeps its seen nodes in a hash set and the
search in a list, so both hypotheses are about membership alone.

`visit_eq_search` is the case of one node and nothing seen.
-/
import TraceFlow.Proofs.Traversal

namespace TraceFlow.Traversal

variable {α : Type} [DecidableEq α] {next : α → List α} {finite : Finite next} {a : α}
  {visited more pending rest : List α}

/-! ## The recursive search -/

/-- How many of the nodes with successors were not visited. -/
noncomputable def unvisited (finite : Finite next) (visited : List α) : Nat :=
  finite.choose.countP fun a => !decide (a ∈ visited)

theorem unvisited_le (h : ∀ a ∈ visited, a ∈ more) :
    unvisited finite more ≤ unvisited finite visited := by
  refine List.countP_mono_left fun a _ ha => ?_
  simp only [Bool.not_eq_true', decide_eq_false_iff_not] at ha ⊢
  exact fun hmem => ha (h a hmem)

/-- A node without successors is no step forward, but there is nothing to search below it. -/
theorem unvisited_cons (hnew : a ∉ visited) :
    unvisited finite (a :: visited) < unvisited finite visited ∨
      next a = [] ∧ unvisited finite (a :: visited) ≤ unvisited finite visited := by
  by_cases hmem : a ∈ finite.choose
  · refine .inl (countP_lt_of_imp (fun b hb => ?_) hmem (by simpa using hnew) (by simp))
    simp only [List.mem_cons, not_or, Bool.not_eq_true', decide_eq_false_iff_not] at hb ⊢
    exact hb.2
  · exact .inr ⟨finite.choose_spec a hmem, unvisited_le fun _ => List.mem_cons_of_mem a⟩

/-- The measure falls when its second part does and its first does not grow. -/
theorem lex_of_le {i j k l : Nat} (hij : i ≤ j) (hkl : k < l) :
    Prod.Lex (· < ·) (· < ·) (i, k) (j, l) :=
  (Nat.lt_or_eq_of_le hij).elim (fun hlt => .left _ _ hlt) fun heq => heq ▸ .right i hkl

/-- The nodes that a depth-first search from each of `nodes` in turn visits, in order, when
`visited` were visited before. -/
def search (next : α → List α) (finite : Finite next) (visited nodes : List α) : List α :=
  match nodes with
  | [] => []
  | a :: rest =>
    if a ∈ visited then
      search next finite visited rest
    else
      let below := search next finite (a :: visited) (next a)
      a :: (below ++ search next finite (below ++ a :: visited) rest)
termination_by (unvisited finite visited, nodes.length)
decreasing_by
  · exact .right _ (Nat.lt_succ_self _)
  · rename_i hnew
    obtain hlt | ⟨hnil, hle⟩ : unvisited finite (a :: visited) < unvisited finite visited ∨ _ :=
      unvisited_cons hnew
    · exact .left _ _ hlt
    · exact lex_of_le hle (by simp [hnil])
  · exact lex_of_le (unvisited_le fun b hb => by simp [hb]) (Nat.lt_succ_self _)

@[simp] theorem search_nil : search next finite visited [] = [] := by
  rw [search]

theorem search_cons_visited (h : a ∈ visited) :
    search next finite visited (a :: rest) = search next finite visited rest := by
  rw [search, if_pos h]

/-- A new node is visited before its successors, and those before its siblings. -/
theorem search_cons_new (h : a ∉ visited) :
    search next finite visited (a :: rest) =
      let below := search next finite (a :: visited) (next a)
      a :: (below ++ search next finite (below ++ a :: visited) rest) := by
  rw [search, if_neg h]

/-! ## The stack of a visit -/

variable [Hashable α] {seen after : Std.HashSet α}

/-- Visiting what is pending on top of the rest is searching what is pending, and then visiting the
rest with all of that seen. -/
theorem preorder_append (hseen : ∀ b, b ∈ seen ↔ b ∈ visited)
    (hafter : ∀ b, b ∈ after ↔ b ∈ search next finite visited pending ++ visited) :
    preorder next finite (pending ++ rest) seen =
      search next finite visited pending ++ preorder next finite rest after := by
  fun_induction search next finite visited pending generalizing seen after rest with
  | case1 visited => exact preorder_congr rest seen fun b => (hseen b).trans (hafter b).symm
  | case2 visited a nodes hmem ih =>
    rw [List.cons_append, preorder_cons_seen ((hseen a).2 hmem)]
    exact ih hseen hafter
  | case3 visited a nodes hnew below ihbelow =>
    rename_i ihrest
    have hinsert : ∀ b, b ∈ seen.insert a ↔ b ∈ a :: visited := by
      intro b
      rw [Std.HashSet.mem_insert, List.mem_cons, hseen, beq_iff_eq, eq_comm]
    -- what is seen once the successors of the node are done with
    have hbelow : ∀ b, b ∈ (seen.insert a).insertMany below ↔ b ∈ below ++ a :: visited := by
      intro b
      rw [Std.HashSet.mem_insertMany_list, hinsert, List.contains_iff_mem, List.mem_append,
        or_comm]
    have hlast : ∀ b, b ∈ after ↔
        b ∈ search next finite (below ++ a :: visited) nodes ++ (below ++ a :: visited) := by
      intro b
      rw [hafter]
      simp only [List.cons_append, List.mem_append, List.mem_cons, or_assoc, or_left_comm]
    calc preorder next finite (a :: nodes ++ rest) seen
      _ = a :: preorder next finite (next a ++ (nodes ++ rest)) (seen.insert a) :=
        preorder_cons_fresh fun hmem => hnew ((hseen a).1 hmem)
      _ = a :: (below ++ preorder next finite (nodes ++ rest)
            ((seen.insert a).insertMany below)) := by rw [ihbelow hinsert hbelow]
      _ = _ := by rw [ihrest hbelow hlast, List.cons_append, List.append_assoc]

/-- The visit from a node is the recursive search from it. -/
theorem visit_eq_search (a : α) : visit next finite a = search next finite [] [a] := by
  have hempty : ∀ b : α, b ∈ (∅ : Std.HashSet α) ↔ b ∈ [] := fun b =>
    iff_of_false Std.HashSet.not_mem_empty List.not_mem_nil
  have hafter : ∀ b, b ∈ Std.HashSet.ofList (search next finite [] [a]) ↔
      b ∈ search next finite [] [a] ++ [] := by
    intro b
    rw [Std.HashSet.mem_ofList, List.contains_iff_mem, List.append_nil]
  have hvisit : preorder next finite ([a] ++ []) ∅ = _ := preorder_append hempty hafter
  rwa [preorder_nil, List.append_nil, List.append_nil] at hvisit

end TraceFlow.Traversal
