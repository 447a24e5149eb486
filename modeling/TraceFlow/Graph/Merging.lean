/-
TraceFlow.Graph.Merging — joining blocks that always follow one another.

* A block absorbs its only successor when it is that block's only
  predecessor, no control-flow opcode stands between, and the successor
  begins no function (`mergeCandidate?`).
* `mergeStraightLines` goes through the index, joining as long as it can,
  until a pass changes nothing. Every join takes one block out of those
  not yet absorbed (`unmerged`), so it ends.
-/
import TraceFlow.Graph.Links
import TraceFlow.Note

namespace TraceFlow.Graph

/-! ## One join -/

/-- Whether a block may absorb its only successor: every control-flow opcode ends a block. -/
def acceptsBelow (g : Graph) (p : Profile) (id : BlockId) : Bool :=
  let b := g.block id
  b.isMergeable && b.mergedInto.isNone && b.outDegree == 1 && (p.classify b.lastOpcode).isNone

/-- Whether a block may be absorbed by its only predecessor: blocks that begin a function stay. -/
def acceptsAbove (g : Graph) (id : BlockId) : Bool :=
  let b := g.block id
  b.isMergeable && b.mergedInto.isNone && b.kind == .code && b.inDegree == 1

/-- The successor that a block may absorb. -/
def mergeCandidate? (g : Graph) (p : Profile) (id : BlockId) : Option BlockId :=
  if g.acceptsBelow p id then
    ((g.block id).successors.head?).filter fun next => next != id && g.acceptsAbove next
  else
    none

/-- Moves one edge out of `other` so that it leaves `into`; an edge from `other` to itself then
leads to `into`. -/
def rehome (into other : BlockId) (g : Graph) (l : Link) : Graph :=
  (g.unlink other l.target).link into (if l.target = other then into else l.target)
    (some l.kind) l.count

/-- The graph after `into` took over the instructions and edges of `other`. -/
def absorb (g : Graph) (into other : BlockId) : Graph :=
  let parted := g.unlink into other
  let moved := (parted.linksFrom other).foldl (rehome into other) parted
  let tail := (moved.block other).instructions
  let joined := moved.modify into fun b => { b with instructions := b.instructions ++ tail }
  let marked := joined.modify other fun b => { b with mergedInto := some into }
  marked.unindex other

/-! ## Blocks not absorbed -/

/-- By which block each block was absorbed. -/
def absorbers (g : Graph) : List (Option BlockId) := g.blocks.toList.map (·.mergedInto)

def unmerged (g : Graph) : Nat := g.absorbers.countP (·.isNone)

theorem map_modify_of_eq {α β : Type} (v : α → β) (f : α → α) (h : ∀ a, v (f a) = v a) :
    ∀ (l : List α) (i : Nat), (l.modify i f).map v = l.map v
  | [], _ => by simp
  | _ :: _, 0 => by simp [h]
  | x :: xs, i + 1 => by simp [map_modify_of_eq v f h xs i]

theorem absorbers_modify (g : Graph) (id : BlockId) (f : Block → Block)
    (h : ∀ b, (f b).mergedInto = b.mergedInto) : (g.modify id f).absorbers = g.absorbers := by
  simp only [absorbers, modify, Array.toList_modify]
  exact map_modify_of_eq _ _ h _ _

@[simp] theorem absorbers_link (g : Graph) (a b : BlockId) (kind : Option LinkKind) (count : Nat) :
    (g.link a b kind count).absorbers = g.absorbers := by
  unfold link
  split
  · rfl
  · simp only
    rw [absorbers_modify, absorbers_modify] <;> intros <;> rfl

@[simp] theorem absorbers_unlink (g : Graph) (a b : BlockId) :
    (g.unlink a b).absorbers = g.absorbers := by
  unfold unlink
  split
  · rfl
  · simp only
    rw [absorbers_modify, absorbers_modify] <;> intros <;> rfl

theorem absorbers_rehome (into other : BlockId) (ls : List Link) (g : Graph) :
    (ls.foldl (rehome into other) g).absorbers = g.absorbers := by
  induction ls generalizing g with
  | nil => rfl
  | cons l ls ih => simp [ih, rehome]

theorem absorbers_unindex (g : Graph) (id : BlockId) : (g.unindex id).absorbers = g.absorbers := by
  simp [absorbers]

/-- The block that absorbed another, read off the list of absorbers. -/
theorem mergedInto_eq (g : Graph) (id : BlockId) :
    (g.block id).mergedInto = (g.absorbers[id]?).getD none := by
  unfold block absorbers
  simp only [List.getElem?_map, Array.getElem?_toList]
  cases g.blocks[id]? <;> rfl

theorem countP_modify_some (x : BlockId) :
    ∀ (l : List (Option BlockId)) (i : Nat), l[i]? = some none →
      (l.modify i fun _ => some x).countP (·.isNone) + 1 = l.countP (·.isNone)
  | [], _, h => by simp at h
  | y :: ys, 0, h => by
    simp only [List.getElem?_cons_zero, Option.some.injEq] at h
    subst h
    simp
  | y :: ys, i + 1, h => by
    have := countP_modify_some x ys i (by simpa using h)
    simp only [List.modify_succ_cons, List.countP_cons]
    omega

/-- What a join does to the list of absorbers: it enters one block. -/
theorem absorbers_absorb (g : Graph) (into other : BlockId) :
    (g.absorb into other).absorbers = g.absorbers.modify other fun _ => some into := by
  have hmark : ∀ g : Graph, (g.modify other fun b => { b with mergedInto := some into }).absorbers
      = g.absorbers.modify other fun _ => some into := by
    intro g
    simp only [absorbers, modify, Array.toList_modify]
    generalize g.blocks.toList = l
    induction l generalizing other with
    | nil => simp
    | cons x xs ih => cases other <;> simp [ih]
  unfold absorb
  simp only
  rw [absorbers_unindex, hmark, absorbers_modify, absorbers_rehome, absorbers_unlink]
  exact fun _ => rfl

/-- A candidate is a block of the graph that was not absorbed. -/
theorem unmerged_of_mergeCandidate? {g : Graph} {p : Profile} {id next : BlockId}
    (h : g.mergeCandidate? p id = some next) : g.absorbers[next]? = some none := by
  unfold mergeCandidate? at h
  split at h
  · have hf := (Option.filter_eq_some_iff.1 h).2
    simp only [Bool.and_eq_true, acceptsAbove] at hf
    have hlt : next < g.size := by
      rcases Nat.lt_or_ge next g.size with hlt | hge
      · exact hlt
      · have hm := hf.2.2
        rw [block_of_size_le hge] at hm
        exact absurd hm (by decide)
    have hnone : (g.block next).mergedInto = none := by
      simpa using hf.2.1.1.2
    have hlen : next < g.absorbers.length := by simpa [absorbers, size] using hlt
    rw [mergedInto_eq, List.getElem?_eq_getElem hlen] at hnone
    rw [List.getElem?_eq_getElem hlen]
    simpa using hnone
  · cases h

/-- Every join takes one block out of those not absorbed. -/
theorem unmerged_absorb {g : Graph} {p : Profile} {id next : BlockId}
    (h : g.mergeCandidate? p id = some next) : (g.absorb id next).unmerged + 1 = g.unmerged := by
  unfold unmerged
  rw [absorbers_absorb]
  exact countP_modify_some _ _ _ (unmerged_of_mergeCandidate? h)

/-! ## All joins -/

/-- A graph and the number of joins made so far. -/
structure Merged where
  graph : Graph
  /-- Joins made so far. -/
  count : Nat

def Merged.note (m : Merged) : Note := ⟨.debug, "Merged " ++ Nat.repr m.count ++ " blocks"⟩

/-- Joins a block with its successors as long as there is a candidate. -/
def mergeFrom (p : Profile) (id : BlockId) (m : Merged) : Merged :=
  match h : m.graph.mergeCandidate? p id with
  | none => m
  | some next => mergeFrom p id ⟨m.graph.absorb id next, m.count + 1⟩
termination_by m.graph.unmerged
decreasing_by
  have := unmerged_absorb h
  omega

theorem mergeFrom_balance (p : Profile) (id : BlockId) (m : Merged) :
    (mergeFrom p id m).graph.unmerged + (mergeFrom p id m).count = m.graph.unmerged + m.count ∧
      m.count ≤ (mergeFrom p id m).count := by
  fun_induction mergeFrom p id m with
  | case1 => exact ⟨rfl, Nat.le_refl _⟩
  | case2 m next h ih =>
    have := unmerged_absorb h
    simp only at ih
    omega

/-- One pass over the index as it was when the pass began; blocks absorbed meanwhile are left
out. -/
def mergePass (p : Profile) (m : Merged) : Merged :=
  m.graph.indexed.foldl (fun m id => if m.graph.isIndexed id then mergeFrom p id m else m) m

theorem mergePass_balance (p : Profile) (m : Merged) :
    (mergePass p m).graph.unmerged + (mergePass p m).count = m.graph.unmerged + m.count ∧
      m.count ≤ (mergePass p m).count := by
  unfold mergePass
  generalize m.graph.indexed = ids
  induction ids generalizing m with
  | nil => exact ⟨rfl, Nat.le_refl _⟩
  | cons id ids ih =>
    simp only [List.foldl_cons]
    split
    · have h₁ := mergeFrom_balance p id m
      have h₂ := ih (mergeFrom p id m)
      omega
    · exact ih m

/-- Passes until one makes no join. -/
def mergePasses (p : Profile) (m : Merged) : Merged :=
  let m' := mergePass p m
  if m'.count = m.count then m' else mergePasses p m'
termination_by m.graph.unmerged
decreasing_by
  rename_i h
  have hb := mergePass_balance p m
  have h : ¬(mergePass p m).count = m.count := h
  omega

/-- The graph with all straight lines joined, and the number of joins. -/
def mergeStraightLines (g : Graph) (p : Profile) : Merged := mergePasses p ⟨g, 0⟩

end TraceFlow.Graph
