/-
TraceFlow.Proofs.Graph.Claimed — what dividing a graph into functions
leaves.

The division tries the entries in two passes, those that nothing leads to
first, and cuts out a function for each that lies in none yet. What it
leaves can be said without an order: `Claimed g tops g'` means that `g'` is
`g` after the functions at `tops` were cut out. A block is marked with the
names of exactly those entries of `tops` that reach it, it is listed
exactly when none does, and nothing else has changed, edges least of all.
Reachability is therefore always that of `g`, whichever functions were cut
out before.

`Claimed.cut` is the step, one more function. A cut goes through the closure
of its entry and marks block after block (`cut_eq`), so it is two loops over
a list of blocks: `block_claimAll` for what the blocks show and
`Filed.claimAll` for the lists, each by induction on the list.

`claimed_placeFree` and `claimed_placeEntered` are the two passes, by
induction on the entries that are left, with the functions so far as a
parameter. Beside `Claimed` they say that every entry is reached from some
function: one that is cut out reaches itself, and one that is not lies in
another, by the marks that it has. `claimed_partition` puts the passes
together.
-/
import TraceFlow.Graph.Partition
import TraceFlow.Proofs.Graph.Catalogue
import TraceFlow.Proofs.Graph.Mirror
import TraceFlow.Proofs.Graph.Reach
import TraceFlow.Proofs.SortedMap

namespace TraceFlow

namespace Graph

variable {g g' : Graph} {tops : List BlockId} {id entry : BlockId} {name n : String}
  {pc : Address}

/-! ## Cutting one function out -/

/-- The graph with a block marked as part of a function and taken out of the index. -/
def claim (name : String) (g : Graph) (id : BlockId) : Graph :=
  (g.modify id fun b => { b with within := b.within.add name }).unindex id

/-- A function is cut out block by block. -/
theorem cut_eq (g : Graph) (entry : BlockId) (name : String) :
    g.cut entry name = (g.closure entry).foldl (claim name) g := rfl

theorem block_claim (name : String) (g : Graph) (x id : BlockId) :
    (claim name g x).block id =
      if x = id ∧ id < g.size then { g.block id with within := (g.block id).within.add name }
      else g.block id := by
  rw [claim, block_congr (blocks_unindex _ _), block_modify]

@[simp] theorem size_claim (name : String) (g : Graph) (id : BlockId) :
    (claim name g id).size = g.size := by
  rw [claim, (SameEdges.unindex _ _).size, size_modify]

/-- The blocks of a list are marked, and no others. -/
theorem block_claimAll (name : String) :
    ∀ (ids : List BlockId) (g : Graph) (id : BlockId), (ids.foldl (claim name) g).block id =
      if id ∈ ids ∧ id < g.size then
        { g.block id with within := (g.block id).within.add name } else g.block id
  | [], g, id => by simp
  | x :: ids, g, id => by
    rw [List.foldl_cons, block_claimAll name ids, block_claim, size_claim]
    by_cases hlt : id < g.size
    · by_cases hx : x = id
      · subst hx
        by_cases hmem : x ∈ ids <;> simp [hlt, hmem, NameSet.add_add]
      · have hx' : ¬id = x := fun heq => hx heq.symm
        simp [hlt, hx, hx']
    · simp [hlt]

/-- A block that is marked is listed no more. -/
theorem Filed.claim (h : Filed g) (x : BlockId) (name : String) :
    Filed (claim name g x) ∧
      ∀ pc id, id ∈ (Graph.claim name g x).listedAt pc ↔ id ≠ x ∧ id ∈ g.listedAt pc := by
  have hmarked : Filed (g.modify x fun b => { b with within := b.within.add name }) := by
    refine h.of_index_eq rfl (Nat.le_of_eq (size_modify ..).symm) fun id _ => ?_
    rw [block_modify]
    split <;> rfl
  refine ⟨hmarked.unindex x, fun pc id => ?_⟩
  rw [Graph.claim, hmarked.listedAt_unindex, List.mem_filter, decide_eq_true_eq]
  exact and_comm

/-- Nor is any block of a list: by induction on the list. -/
theorem Filed.claimAll (name : String) :
    ∀ (ids : List BlockId) {g : Graph}, Filed g → Filed (ids.foldl (Graph.claim name) g) ∧
      ∀ pc id, id ∈ (ids.foldl (Graph.claim name) g).listedAt pc ↔ id ∉ ids ∧ id ∈ g.listedAt pc
  | [], g, h => ⟨h, fun pc id => by simp⟩
  | x :: ids, g, h => by
    obtain ⟨hclaimed, hfirst⟩ := h.claim x name
    obtain ⟨hfiled, hrest⟩ := Filed.claimAll name ids hclaimed
    refine ⟨hfiled, fun pc id => (hrest pc id).trans ?_⟩
    rw [hfirst, List.mem_cons, not_or, and_left_comm, and_assoc]

/-! ## Cutting functions out -/

/-- A graph `g` after the functions that begin at `tops` were cut out of it. -/
structure Claimed (g : Graph) (tops : List BlockId) (g' : Graph) : Prop where
  same : SameEdges g g'
  filed : Filed g'
  name : ∀ id, g'.name id = g.name id
  mergedInto : ∀ id, (g'.block id).mergedInto = (g.block id).mergedInto
  listed : ∀ pc id, id ∈ g'.listedAt pc ↔ (∀ e ∈ tops, ¬g.Reaches e id) ∧ id ∈ g.listedAt pc
  within : ∀ {id}, id < g.size → ∀ n, (g'.block id).within.contains n = true ↔
    ∃ e ∈ tops, n = g.name e ∧ g.Reaches e id

namespace Claimed

/-- At first no function was cut out. -/
theorem start (h : Filed g) (hwithin : ∀ {id}, id < g.size → (g.block id).within = ∅) :
    Claimed g [] g := by
  refine ⟨.refl g, h, fun _ => rfl, fun _ => rfl, fun pc id => by simp, fun hid n => ?_⟩
  rw [hwithin hid, SortedMap.contains, SortedMap.get?_empty]
  simp

/-- The step: one more function is cut out. -/
theorem cut (h : Claimed g tops g') (entry : BlockId) :
    Claimed g (tops ++ [entry]) (g'.cut entry (g'.name entry)) := by
  have hblock := fun id => block_claimAll (g'.name entry) (g'.closure entry) g' id
  obtain ⟨hfiled, hlisted⟩ := Filed.claimAll (g'.name entry) (g'.closure entry) h.filed
  have hsame := SameEdges.cut g' entry (g'.name entry)
  rw [cut_eq] at hsame ⊢
  have hdigits : ((g'.closure entry).foldl (claim (g'.name entry)) g').digits = g'.digits :=
    List.foldlRecOn (motive := fun c : Graph => c.digits = g'.digits) _ _ rfl
      fun c hc id _ => by rw [claim, digits_unindex]; exact hc
  have hclosure : ∀ id, id ∈ g'.closure entry ↔ g.Reaches entry id := fun id =>
    mem_closure_iff.trans h.same.reaches
  have htops : ∀ P : BlockId → Prop,
      (∀ e ∈ tops ++ [entry], P e) ↔ (∀ e ∈ tops, P e) ∧ P entry := by
    intro P
    simp [or_imp, forall_and]
  generalize (g'.closure entry).foldl (claim (g'.name entry)) g' = c at *
  refine ⟨h.same.trans hsame, hfiled, fun id => ?_, fun id => ?_, fun pc id => ?_,
    fun {id} hid n => ?_⟩
  · rw [← h.name, Graph.name, Graph.name, hdigits, hblock]
    split <;> rfl
  · rw [← h.mergedInto, hblock]
    split <;> rfl
  · rw [hlisted, h.listed, hclosure, htops]
    exact ⟨fun ⟨hentry, hold, hmem⟩ => ⟨⟨hold, hentry⟩, hmem⟩,
      fun ⟨⟨hold, hentry⟩, hmem⟩ => ⟨hentry, hold, hmem⟩⟩
  · have hid' : id < g'.size := h.same.size.symm ▸ hid
    have hold := h.within hid n
    rw [hblock]
    constructor
    · intro hn
      split at hn
      · rename_i hreach
        rcases (NameSet.contains_add _ _ _).1 hn with heq | hn
        · exact ⟨entry, by simp, heq.trans (h.name entry), (hclosure id).1 hreach.1⟩
        · obtain ⟨e, he, hrest⟩ := hold.1 hn
          exact ⟨e, List.mem_append_left _ he, hrest⟩
      · obtain ⟨e, he, hrest⟩ := hold.1 hn
        exact ⟨e, List.mem_append_left _ he, hrest⟩
    · rintro ⟨e, he, hn, hreach⟩
      rcases List.mem_append.1 he with he | he
      · have hn := hold.2 ⟨e, he, hn, hreach⟩
        split
        · exact (NameSet.contains_add _ _ _).2 (.inr hn)
        · exact hn
      · rw [List.mem_singleton.1 he] at hn hreach
        rw [if_pos ⟨(hclosure id).2 hreach, hid'⟩]
        exact (NameSet.contains_add _ _ _).2 (.inl (hn.trans (h.name entry).symm))

end Claimed

/-! ## The division -/

def topEntries (placed : List Placement) : List BlockId :=
  (placed.filter (·.isTopLevel)).map (·.entry)

/-- The first pass: each entry that nothing leads to becomes a function. -/
theorem claimed_placeFree :
    ∀ (entries : List BlockId) {tops : List BlockId} {g' : Graph}, Claimed g tops g' →
      Claimed g (tops ++ topEntries (g'.placeFree entries).2.1) (g'.placeFree entries).1 ∧
      (∀ P ∈ (g'.placeFree entries).2.1, P.entry ∈ entries ∧ P.name = g.name P.entry) ∧
      (∀ e ∈ (g'.placeFree entries).2.2, e ∈ entries) ∧
      ∀ e ∈ entries, e ∈ topEntries (g'.placeFree entries).2.1 ∨ e ∈ (g'.placeFree entries).2.2
  | [], tops, g', h => by
    simpa [placeFree, topEntries] using h
  | entry :: rest, tops, g', h => by
    unfold placeFree
    split
    · obtain ⟨hclaimed, hnamed, hleft, hall⟩ := claimed_placeFree rest (h.cut entry)
      refine ⟨?_, fun P hP => ?_, fun e he => List.mem_cons_of_mem _ (hleft e he), fun e he => ?_⟩
      · rw [List.append_assoc] at hclaimed
        exact hclaimed
      · rcases List.mem_cons.1 hP with rfl | hP
        · exact ⟨List.mem_cons_self, h.name entry⟩
        · exact (hnamed P hP).imp_left (List.mem_cons_of_mem _)
      · rcases List.mem_cons.1 he with rfl | he
        · exact .inl List.mem_cons_self
        · exact (hall e he).imp_left (List.mem_cons_of_mem _)
    · obtain ⟨hclaimed, hnamed, hleft, hall⟩ := claimed_placeFree rest h
      refine ⟨hclaimed, fun P hP => (hnamed P hP).imp_left (List.mem_cons_of_mem _),
        fun e he => ?_, fun e he => ?_⟩
      · exact (List.mem_cons.1 he).elim (fun heq => heq ▸ List.mem_cons_self)
          fun he => List.mem_cons_of_mem _ (hleft e he)
      · rcases List.mem_cons.1 he with rfl | he
        · exact .inr List.mem_cons_self
        · exact (hall e he).imp_right (List.mem_cons_of_mem _)

/-- An entry that lies in no function yet becomes one; any other lies in one that was cut out. -/
theorem claimed_placeEntered :
    ∀ (entries : List BlockId) {tops : List BlockId} {g' : Graph}, Claimed g tops g' →
      (∀ e ∈ entries, e < g.size) →
      Claimed g (tops ++ topEntries (g'.placeEntered entries).2) (g'.placeEntered entries).1 ∧
      (∀ P ∈ (g'.placeEntered entries).2, P.entry ∈ entries ∧ P.name = g.name P.entry) ∧
      ∀ e ∈ entries, ∃ t ∈ tops ++ topEntries (g'.placeEntered entries).2, g.Reaches t e
  | [], tops, g', h, _ => by
    simpa [placeEntered, topEntries] using h
  | entry :: rest, tops, g', h, hlt => by
    have hrest : ∀ e ∈ rest, e < g.size := fun e he => hlt e (List.mem_cons_of_mem _ he)
    unfold placeEntered
    simp only
    split
    · obtain ⟨hclaimed, hnamed, hall⟩ := claimed_placeEntered rest (h.cut entry) hrest
      rw [List.append_assoc] at hclaimed hall
      refine ⟨hclaimed, fun P hP => ?_, fun e he => ?_⟩
      · rcases List.mem_cons.1 hP with rfl | hP
        · exact ⟨List.mem_cons_self, h.name entry⟩
        · exact (hnamed P hP).imp_left (List.mem_cons_of_mem _)
      · rcases List.mem_cons.1 he with rfl | he
        · exact ⟨e, List.mem_append_right _ List.mem_cons_self, .here e⟩
        · exact hall e he
    · rename_i hwithin
      obtain ⟨hclaimed, hnamed, hall⟩ := claimed_placeEntered rest h hrest
      refine ⟨hclaimed, fun P hP => ?_, fun e he => ?_⟩
      · rcases List.mem_cons.1 hP with rfl | hP
        · exact ⟨List.mem_cons_self, h.name entry⟩
        · exact (hnamed P hP).imp_left (List.mem_cons_of_mem _)
      · rcases List.mem_cons.1 he with rfl | he
        · obtain ⟨n, hn⟩ := NameSet.exists_of_isEmpty_eq_false (by simpa using hwithin)
          obtain ⟨t, ht, -, hreach⟩ := (h.within (hlt e List.mem_cons_self) n).1 hn
          exact ⟨t, List.mem_append_left _ ht, hreach⟩
        · exact hall e he

/-- The functions of two passes are listed one after the other. -/
theorem topEntries_append (placed more : List Placement) :
    topEntries (placed ++ more) = topEntries placed ++ topEntries more := by
  simp [topEntries]

/-- The division cuts out the functions of their own that it names, and one of them reaches every
entry. -/
theorem claimed_partition (h : Filed g) (hwithin : ∀ {id}, id < g.size → (g.block id).within = ∅)
    {entries : List BlockId} (hlt : ∀ e ∈ entries, e < g.size) :
    Claimed g (topEntries (g.partition entries).2) (g.partition entries).1 ∧
      (∀ P ∈ (g.partition entries).2, P.entry ∈ entries ∧ P.name = g.name P.entry) ∧
      ∀ e ∈ entries, ∃ t ∈ topEntries (g.partition entries).2, g.Reaches t e := by
  obtain ⟨hfreed, hfree, hleft, hall⟩ := claimed_placeFree entries (Claimed.start h hwithin)
  obtain ⟨hdone, hentered, hreached⟩ := claimed_placeEntered (g.placeFree entries).2.2 hfreed
    fun e he => hlt e (hleft e he)
  rw [List.nil_append, ← topEntries_append] at hdone hreached
  refine ⟨hdone, fun P hP => ?_, fun e he => ?_⟩
  · rcases List.mem_append.1 hP with hP | hP
    · exact hfree P hP
    · exact (hentered P hP).imp_left (hleft P.entry)
  · rcases hall e he with htop | hentry
    · exact ⟨e, topEntries_append _ _ ▸ List.mem_append_left _ htop, .here e⟩
    · exact hreached e hentry

end Graph

end TraceFlow
