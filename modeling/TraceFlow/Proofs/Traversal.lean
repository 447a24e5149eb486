/-
TraceFlow.Proofs.Traversal — which nodes a depth-first visit lists.

A visit takes nodes from a stack, skips those that were seen, and puts the
successors of the others on top. Closures of blocks and walks over two
graphs are both such visits, so the facts are stated for any successor
function with finitely many nodes that lead on.

`Path next a b` is a chain of successors. The main statement is
`mem_visit_iff`: a visit lists what its start leads to, and nothing else.
Its halves are two invariants of the loop, for any stack and any seen
nodes, by induction along the recursion of `preorder`.

* `mem_preorder_path`: what is listed was not seen before, and something
  pending leads to it.
* `preorder_closed`: what is listed, together with what was seen, leaves no
  successor out, as long as the successors of seen nodes are seen or
  pending. `Path.closed` carries that along a path.

`nodup_preorder` says that each node is listed once, and `head?_visit` that
the start comes first. `visit_perm_map` compares two visits: where the
successors of an image are the images of the successors, the nodes are the
images, but for their order. It needs no more than the above, since two
lists without repeats and with the same members are permutations.
-/
import Mathlib.Data.List.Nodup
import TraceFlow.Traversal

namespace TraceFlow.Traversal

variable {α : Type} {next : α → List α} {a b c : α}

/-- A chain of successors from one node to another. -/
inductive Path (next : α → List α) : α → α → Prop where
  | here (a : α) : Path next a a
  | step {a b c : α} (edge : b ∈ next a) (path : Path next b c) : Path next a c

/-- Paths compose. -/
theorem Path.trans (hab : Path next a b) (hbc : Path next b c) : Path next a c := by
  induction hab with
  | here => exact hbc
  | step edge _ ih => exact .step edge (ih hbc)

/-- A set that holds every successor of what it holds, holds the end of every path from it. -/
theorem Path.closed {P : α → Prop} (hP : ∀ a, P a → ∀ b ∈ next a, P b) (hab : Path next a b)
    (ha : P a) : P b := by
  induction hab with
  | here => exact ha
  | step edge _ ih => exact ih (hP _ ha _ edge)

variable [DecidableEq α] [Hashable α] {finite : Finite next} {pending : List α}
  {seen : Std.HashSet α}

/-- What a visit lists was not seen before, and something pending leads to it. -/
theorem mem_preorder_path (hb : b ∈ preorder next finite pending seen) :
    b ∉ seen ∧ ∃ a ∈ pending, Path next a b := by
  fun_induction preorder next finite pending seen with
  | case1 => cases hb
  | case2 seen a rest hseen ih =>
    obtain ⟨hnew, c, hc, hpath⟩ := ih hb
    exact ⟨hnew, c, List.mem_cons_of_mem _ hc, hpath⟩
  | case3 seen a rest hseen ih =>
    rcases List.mem_cons.1 hb with rfl | hb
    · exact ⟨hseen, b, List.mem_cons_self, .here b⟩
    · obtain ⟨hnew, c, hc, hpath⟩ := ih hb
      refine ⟨fun h => hnew (Std.HashSet.mem_insert.2 (.inr h)), ?_⟩
      rcases List.mem_append.1 hc with hc | hc
      · exact ⟨a, List.mem_cons_self, .step hc hpath⟩
      · exact ⟨c, List.mem_cons_of_mem _ hc, hpath⟩

/-- A visit lists all that is pending and was not seen. -/
theorem mem_preorder_of_pending (ha : a ∈ pending) (hnew : a ∉ seen) :
    a ∈ preorder next finite pending seen := by
  fun_induction preorder next finite pending seen with
  | case1 => cases ha
  | case2 seen c rest hseen ih =>
    rcases List.mem_cons.1 ha with rfl | ha
    · exact absurd hseen hnew
    · exact ih ha hnew
  | case3 seen c rest hseen ih =>
    by_cases hac : a = c
    · subst hac
      exact List.mem_cons_self
    · refine List.mem_cons_of_mem _ (ih (List.mem_append_right _ ?_) ?_)
      · exact (List.mem_cons.1 ha).resolve_left hac
      · simp only [Std.HashSet.mem_insert, not_or]
        exact ⟨by simpa using fun h => hac h.symm, hnew⟩

/-- If what was seen has no successors but those seen or pending, then what was seen or listed has
none but those seen or listed. -/
theorem preorder_closed (hseen : ∀ a ∈ seen, ∀ b ∈ next a, b ∈ seen ∨ b ∈ pending)
    (ha : a ∈ seen ∨ a ∈ preorder next finite pending seen) (hb : b ∈ next a) :
    b ∈ seen ∨ b ∈ preorder next finite pending seen := by
  fun_induction preorder next finite pending seen with
  | case1 seen =>
    rcases ha with ha | ha
    · exact hseen a ha b hb
    · cases ha
  | case2 seen c rest hc ih =>
    refine ih (fun x hx y hy => ?_) ha
    rcases hseen x hx y hy with hy | hy
    · exact .inl hy
    · rcases List.mem_cons.1 hy with rfl | hy
      · exact .inl hc
      · exact .inr hy
  | case3 seen c rest hc ih =>
    -- the node visited now counts as seen, its successors as pending
    have hseen' : ∀ x ∈ seen.insert c, ∀ y ∈ next x,
        y ∈ seen.insert c ∨ y ∈ next c ++ rest := by
      intro x hx y hy
      rcases Std.HashSet.mem_insert.1 hx with hx | hx
      · obtain rfl : c = x := by simpa using hx
        exact .inr (List.mem_append_left _ hy)
      · rcases hseen x hx y hy with hy | hy
        · exact .inl (Std.HashSet.mem_insert.2 (.inr hy))
        · rcases List.mem_cons.1 hy with rfl | hy
          · exact .inl Std.HashSet.mem_insert_self
          · exact .inr (List.mem_append_right _ hy)
    have ha' : a ∈ seen.insert c ∨ a ∈ preorder next finite (next c ++ rest) (seen.insert c) := by
      rcases ha with ha | ha
      · exact .inl (Std.HashSet.mem_insert.2 (.inr ha))
      · rcases List.mem_cons.1 ha with rfl | ha
        · exact .inl Std.HashSet.mem_insert_self
        · exact .inr ha
    rcases ih hseen' ha' with hb | hb
    · rcases Std.HashSet.mem_insert.1 hb with hb | hb
      · obtain rfl : c = b := by simpa using hb
        exact .inr List.mem_cons_self
      · exact .inl hb
    · exact .inr (List.mem_cons_of_mem _ hb)

/-- A visit lists no node twice. -/
theorem nodup_preorder : (preorder next finite pending seen).Nodup := by
  fun_induction preorder next finite pending seen with
  | case1 => exact List.nodup_nil
  | case2 seen a rest hseen ih => exact ih
  | case3 seen a rest hseen ih =>
    exact List.nodup_cons.2 ⟨fun ha => (mem_preorder_path ha).1 Std.HashSet.mem_insert_self, ih⟩

/-- A visit lists no node twice. -/
theorem nodup_visit (a : α) : (visit next finite a).Nodup := nodup_preorder

/-- A visit begins with its start. -/
theorem head?_visit (a : α) : (visit next finite a).head? = some a := by
  rw [visit, preorder_cons_fresh Std.HashSet.not_mem_empty, List.head?_cons]

/-- A visit lists what its start leads to, and nothing else. -/
theorem mem_visit_iff (a b : α) : b ∈ visit next finite a ↔ Path next a b := by
  unfold visit
  constructor
  · intro hb
    obtain ⟨-, c, hc, hpath⟩ := mem_preorder_path hb
    rwa [List.mem_singleton.1 hc] at hpath
  · intro hpath
    have hempty : ∀ x : α, ¬x ∈ (∅ : Std.HashSet α) := fun _ => Std.HashSet.not_mem_empty
    have hclosed : ∀ x, x ∈ preorder next finite [a] ∅ → ∀ y ∈ next x,
        y ∈ preorder next finite [a] ∅ := fun x hx y hy =>
      (preorder_closed (fun z hz => absurd hz (hempty z)) (.inr hx) hy).resolve_left (hempty y)
    exact hpath.closed hclosed (mem_preorder_of_pending (List.mem_singleton_self a) (hempty a))

/-- A map that carries the successors of a node to those of its image carries a visit to a visit, in
some order. -/
theorem visit_perm_map {β : Type} [DecidableEq β] [Hashable β] {next' : β → List β}
    {finite' : Finite next'} {f : α → β} (hf : Function.Injective f)
    (hnext : ∀ a b, b ∈ next' (f a) ↔ b ∈ (next a).map f) (a : α) :
    (visit next' finite' (f a)).Perm ((visit next finite a).map f) := by
  refine (List.perm_ext_iff_of_nodup (nodup_visit _) ((nodup_visit a).map hf)).2 fun y => ?_
  rw [mem_visit_iff, List.mem_map]
  simp only [mem_visit_iff]
  constructor
  · intro hpath
    refine hpath.closed (P := fun y => ∃ x, Path next a x ∧ f x = y) ?_ ⟨a, .here a, rfl⟩
    rintro _ ⟨x, hx, rfl⟩ y hy
    obtain ⟨z, hz, rfl⟩ := List.mem_map.1 ((hnext x y).1 hy)
    exact ⟨z, hx.trans (.step hz (.here z)), rfl⟩
  · rintro ⟨x, hpath, rfl⟩
    refine hpath.closed (P := fun x => Path next' (f a) (f x)) (fun x hx z hz => ?_) (.here _)
    exact hx.trans (.step ((hnext x _).2 (List.mem_map_of_mem hz)) (.here _))

end TraceFlow.Traversal
