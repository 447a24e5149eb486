/-
TraceFlow.Traversal — depth-first visits of a directed graph given by its
successor lists.

* `preorder next finite pending seen` visits what is pending, top first:
  a node that was seen is dropped, any other is visited and its
  successors are pending before the rest. What was seen is kept as a set,
  so that a long visit need not search what it visited.
* Only finitely many nodes have successors (`Finite`), so the visit ends:
  each step either visits one of those nodes for the first time or
  shortens what is pending.
* `visit` is the visit from one node.
-/
import Std.Data.HashSet.Lemmas

namespace TraceFlow.Traversal

variable {α : Type} [DecidableEq α] [Hashable α]

/-- All nodes that have successors lie in one finite list. -/
def Finite (next : α → List α) : Prop :=
  ∃ nodes : List α, ∀ a, a ∉ nodes → next a = []

omit [DecidableEq α] [Hashable α] in
theorem countP_lt_of_imp {p q : α → Bool} (h : ∀ a, p a → q a) {a : α} :
    ∀ {l : List α}, a ∈ l → q a → ¬p a → l.countP p < l.countP q
  | x :: xs, ha, hq, hp => by
    have hle : xs.countP p ≤ xs.countP q := List.countP_mono_left fun b _ hb => h b hb
    rcases List.mem_cons.1 ha with rfl | ha
    · simp only [List.countP_cons, hq, if_true]
      have : p a = false := by simpa using hp
      simp only [this, Bool.false_eq_true, if_false]
      omega
    · have ih := countP_lt_of_imp h ha hq hp
      simp only [List.countP_cons]
      by_cases hx : p x
      · simp only [hx, h x hx, if_true]; omega
      · simp only [hx]
        simp only [Bool.false_eq_true, if_false]
        split <;> omega

/-- The nodes in the order of their first visit: those pending, top first, and whatever they
lead to, each followed at once by the visits that its successors bring. -/
def preorder (next : α → List α) (finite : Finite next) (pending : List α)
    (seen : Std.HashSet α) : List α :=
  match pending with
  | [] => []
  | a :: rest =>
    if a ∈ seen then
      preorder next finite rest seen
    else
      a :: preorder next finite (next a ++ rest) (seen.insert a)
termination_by (finite.choose.countP fun a => !decide (a ∈ seen), pending.length)
decreasing_by
  · exact Prod.Lex.right _ (by simp)
  · rename_i hseen
    by_cases hmem : a ∈ finite.choose
    · refine Prod.Lex.left _ _ (countP_lt_of_imp (fun b hb => ?_) hmem ?_ ?_)
      · simp only [Std.HashSet.mem_insert, not_or, Bool.not_eq_true', decide_eq_false_iff_not]
          at hb ⊢
        exact hb.2
      · simpa using hseen
      · simp
    · have hle : (finite.choose.countP fun b => !decide (b ∈ seen.insert a)) ≤
          finite.choose.countP fun b => !decide (b ∈ seen) :=
        List.countP_mono_left fun b _ hb => by
          simp only [Std.HashSet.mem_insert, not_or, Bool.not_eq_true', decide_eq_false_iff_not]
            at hb ⊢
          exact hb.2
      rw [finite.choose_spec a hmem]
      rcases Nat.lt_or_eq_of_le hle with hlt | heq
      · exact Prod.Lex.left _ _ hlt
      · rw [heq]; exact Prod.Lex.right _ (by simp)

@[simp] theorem preorder_nil (next : α → List α) (finite : Finite next) (seen : Std.HashSet α) :
    preorder next finite [] seen = [] := by
  rw [preorder]

theorem preorder_cons_seen {next : α → List α} {finite : Finite next} {a : α} {rest : List α}
    {seen : Std.HashSet α} (h : a ∈ seen) :
    preorder next finite (a :: rest) seen = preorder next finite rest seen := by
  rw [preorder, if_pos h]

theorem preorder_cons_fresh {next : α → List α} {finite : Finite next} {a : α} {rest : List α}
    {seen : Std.HashSet α} (h : a ∉ seen) :
    preorder next finite (a :: rest) seen =
      a :: preorder next finite (next a ++ rest) (seen.insert a) := by
  rw [preorder, if_neg h]

/-- Only what was seen counts, not how the set of it came about. -/
theorem preorder_congr {next : α → List α} {finite : Finite next} (pending : List α)
    (seen : Std.HashSet α) {other : Std.HashSet α} (h : ∀ a, a ∈ seen ↔ a ∈ other) :
    preorder next finite pending seen = preorder next finite pending other := by
  fun_induction preorder next finite pending seen generalizing other with
  | case1 => rw [preorder_nil]
  | case2 seen a rest hseen ih => rw [preorder_cons_seen ((h a).1 hseen), ih h]
  | case3 seen a rest hseen ih =>
    rw [preorder_cons_fresh fun hother => hseen ((h a).2 hother), ih fun b => ?_]
    simp only [Std.HashSet.mem_insert, h]

/-- The visit that starts at `a` with nothing seen. -/
def visit (next : α → List α) (finite : Finite next) (a : α) : List α :=
  preorder next finite [a] ∅

end TraceFlow.Traversal
