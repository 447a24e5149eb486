/-
TraceFlow.Proofs.Graph.Division — what becomes of each entry when a graph
is divided.

`Claimed` says what the graph is afterwards. Here it is decided which
entries became functions of their own, in terms of the graph before.

* `perm_entries_partition`: every entry is placed once, though not in the
  order given, as the entries that nothing leads to are placed first.
* `Claimed.placeFree`: those are all functions of their own, whatever their
  order is, and none of them changes what is to be decided of the others
  but by what it reaches.
* `mem_topEntries_placeEntered_iff`: of the others, each becomes a function
  of its own exactly when none that was cut out before reaches it. The list
  is split at the entry (`placeEntered_append`), what stands before it is
  placed by `claimed_placeEntered`, and then its marks tell
  (`Claimed.isEmpty_within_iff`). What stands behind it cannot matter, as an
  entry is placed once.

`mem_topEntries_partition_iff` puts the passes together. It is recursive,
since the functions that decide about an entry are themselves decided
before it; so the order of entries has a part in the result, and the second
half of the module is about that order. `Precedes` compares addresses and
then numbers. The index lists blocks in this order as long as each of its
lists ascends (`Filed.pairwise_indexed`), and a complete index does so
(`Catalogued.pairwise_indexed`).
-/
import Mathlib.Data.List.Nodup
import TraceFlow.Proofs.Graph.Claimed

namespace TraceFlow.Graph

variable {g g' : Graph} {tops before after entries : List BlockId} {e t : BlockId}
  {placed : List Placement}

/-! ## Every entry is placed once -/

/-- The second pass places its entries in the order given. -/
theorem map_entry_placeEntered (entries : List BlockId) (g : Graph) :
    (g.placeEntered entries).2.map (·.entry) = entries := by
  induction entries generalizing g with
  | nil => rfl
  | cons e rest ih =>
    unfold placeEntered
    simp only
    split <;> simp [ih]

/-- Entries are placed one after the other. -/
theorem placeEntered_append (xs ys : List BlockId) (g : Graph) :
    g.placeEntered (xs ++ ys) =
      (((g.placeEntered xs).1.placeEntered ys).1,
        (g.placeEntered xs).2 ++ ((g.placeEntered xs).1.placeEntered ys).2) := by
  induction xs generalizing g with
  | nil => rfl
  | cons x xs ih =>
    rw [List.cons_append, placeEntered, placeEntered]
    simp only [ih]
    split <;> rfl

/-- The entries that nothing leads to are functions of their own; the others are left, in their
order. -/
theorem Claimed.placeFree (h : Claimed g tops g') (entries : List BlockId) :
    (g'.placeFree entries).2.1 =
        (entries.filter fun e => (g.block e).inDegree = 0).map
          (fun e => ⟨g.name e, e, .standalone⟩) ∧
      (g'.placeFree entries).2.2 = entries.filter fun e => ¬(g.block e).inDegree = 0 := by
  induction entries generalizing tops g' with
  | nil => exact ⟨rfl, rfl⟩
  | cons e rest ih =>
    have hdegree : (g'.block e).inDegree = (g.block e).inDegree := by
      rw [Block.inDegree, Block.inDegree, h.same.into]
    unfold Graph.placeFree
    by_cases hfree : (g.block e).inDegree = 0
    · obtain ⟨hplaced, hleft⟩ := ih (h.cut e)
      rw [h.name] at hplaced hleft
      simp [hdegree, hfree, hplaced, hleft, h.name]
    · obtain ⟨hplaced, hleft⟩ := ih h
      simp [hdegree, hfree, hplaced, hleft]

/-- Every entry is placed once. -/
theorem perm_entries_partition (h : Claimed g [] g) (entries : List BlockId) :
    ((g.partition entries).2.map (·.entry)).Perm entries := by
  obtain ⟨hfree, hleft⟩ := h.placeFree entries
  show ((g.placeFree entries).2.1 ++ ((g.placeFree entries).1.placeEntered
    (g.placeFree entries).2.2).2).map (·.entry) |>.Perm entries
  rw [List.map_append, map_entry_placeEntered, hfree, hleft, List.map_map]
  simpa [Function.comp_def] using
    List.filter_append_perm (fun e => (g.block e).inDegree = 0) entries

/-! ## Functions of their own, and the rest -/

/-- A function of its own is the entry of a placement at the top level. -/
theorem mem_topEntries_iff :
    e ∈ topEntries placed ↔ ∃ P ∈ placed, P.isTopLevel = true ∧ P.entry = e := by
  simp [topEntries, and_assoc]

/-- Entries that are placed once do not become both. -/
theorem not_isTopLevel_iff (hnodup : (placed.map (·.entry)).Nodup) {P : Placement}
    (hP : P ∈ placed) : P.isTopLevel = false ↔ P.entry ∉ topEntries placed := by
  constructor
  · intro hinner htop
    obtain ⟨P', hP', htop', hentry⟩ := mem_topEntries_iff.1 htop
    rw [List.inj_on_of_nodup_map hnodup hP' hP hentry, hinner] at htop'
    cases htop'
  · intro hentry
    by_contra htop
    exact hentry (mem_topEntries_iff.2 ⟨P, hP, by simpa using htop, rfl⟩)

/-- Only entries become functions. -/
theorem subset_topEntries_placeEntered (entries : List BlockId) (g : Graph) :
    topEntries (g.placeEntered entries).2 ⊆ entries := by
  intro e he
  obtain ⟨P, hP, -, rfl⟩ := mem_topEntries_iff.1 he
  rw [← map_entry_placeEntered entries g]
  exact List.mem_map_of_mem hP

/-- A block lies in no function yet exactly when none of those cut out reaches it. -/
theorem Claimed.isEmpty_within_iff (h : Claimed g tops g') (he : e < g.size) :
    (g'.block e).within.isEmpty = true ↔ ∀ t ∈ tops, ¬g.Reaches t e := by
  constructor
  · intro hempty t ht hreach
    have hname := (h.within he (g.name t)).2 ⟨t, ht, rfl, hreach⟩
    rw [← SortedMap.isEmpty_entries, List.isEmpty_iff] at hempty
    obtain ⟨u, hu⟩ := Option.isSome_iff_exists.1 hname
    rw [← SortedMap.mem_entries_iff, hempty] at hu
    cases hu
  · intro hnone
    by_contra hsome
    obtain ⟨n, hn⟩ := NameSet.exists_of_isEmpty_eq_false (by simpa using hsome)
    obtain ⟨t, ht, -, hreach⟩ := (h.within he n).1 hn
    exact hnone t ht hreach

/-- Of the entries that something leads to, one becomes a function of its own exactly when none of
those cut out before reaches it. -/
theorem mem_topEntries_placeEntered_iff (h : Claimed g tops g')
    (hlt : ∀ x ∈ before ++ e :: after, x < g.size) (hnodup : (before ++ e :: after).Nodup) :
    e ∈ topEntries (g'.placeEntered (before ++ e :: after)).2 ↔
      ∀ t ∈ tops ++ topEntries (g'.placeEntered before).2, ¬g.Reaches t e := by
  have hfirst : e ∉ before := by
    intro he
    exact List.disjoint_of_nodup_append hnodup he List.mem_cons_self
  have hlast : e ∉ after := (List.nodup_cons.1 (List.nodup_append.1 hnodup).2.1).1
  obtain ⟨hclaimed, -, -⟩ := claimed_placeEntered before h fun x hx =>
    hlt x (List.mem_append_left _ hx)
  rw [placeEntered_append, topEntries_append, List.mem_append,
    ← hclaimed.isEmpty_within_iff (hlt e (by simp))]
  have hbefore : e ∉ topEntries (g'.placeEntered before).2 := fun he =>
    hfirst (subset_topEntries_placeEntered before g' he)
  simp only [hbefore, false_or]
  rw [placeEntered]
  simp only
  split
  · rename_i hempty
    simp [mem_topEntries_iff, Placement.isTopLevel, hempty]
  · rename_i hsome
    constructor
    · intro he
      obtain ⟨P, hP, htop, hentry⟩ := mem_topEntries_iff.1 he
      rcases List.mem_cons.1 hP with rfl | hP
      · cases htop
      · exact absurd (subset_topEntries_placeEntered after _
          (mem_topEntries_iff.2 ⟨P, hP, htop, hentry⟩)) hlast
    · exact fun hempty => absurd hempty hsome

theorem topEntries_standalone (entries : List BlockId) :
    topEntries (entries.map fun e => ⟨g.name e, e, .standalone⟩) = entries := by
  induction entries with
  | nil => rfl
  | cons e rest ih =>
    unfold topEntries at ih ⊢
    simpa [Placement.isTopLevel] using ih

/-- The functions of both passes, first those that nothing leads to. -/
theorem topEntries_partition (h : Claimed g [] g) (entries : List BlockId) :
    topEntries (g.partition entries).2 =
      (entries.filter fun e => (g.block e).inDegree = 0) ++ topEntries
        ((g.placeFree entries).1.placeEntered
          (entries.filter fun e => ¬(g.block e).inDegree = 0)).2 := by
  obtain ⟨hfree, hleft⟩ := h.placeFree entries
  show topEntries ((g.placeFree entries).2.1 ++ ((g.placeFree entries).1.placeEntered
    (g.placeFree entries).2.2).2) = _
  rw [topEntries_append, hfree, topEntries_standalone, hleft]

/-- What became of an entry: it is a function of its own exactly when nothing leads to it, or when
no function that is tried before it, or that nothing leads to, reaches it. -/
theorem mem_topEntries_partition_iff (h : Claimed g [] g) (hlt : ∀ x ∈ entries, x < g.size)
    (hnodup : entries.Nodup) (hentries : entries = before ++ e :: after) :
    e ∈ topEntries (g.partition entries).2 ↔ (g.block e).inDegree = 0 ∨
      ∀ t ∈ topEntries (g.partition entries).2,
        (g.block t).inDegree = 0 ∨ t ∈ before → ¬g.Reaches t e := by
  obtain ⟨hclaimed, -, -, -⟩ := claimed_placeFree entries h
  rw [(h.placeFree entries).1, topEntries_standalone, List.nil_append] at hclaimed
  rw [topEntries_partition h]
  by_cases hdegree : (g.block e).inDegree = 0
  · simp [hdegree, hentries]
  · -- of the entries that something leads to, those in front are tried first
    have hsplit : (entries.filter fun e => ¬(g.block e).inDegree = 0) =
        (before.filter fun e => ¬(g.block e).inDegree = 0) ++ e ::
          after.filter fun e => ¬(g.block e).inDegree = 0 := by
      rw [hentries, List.filter_append, List.filter_cons_of_pos (by simpa using hdegree)]
    have hlt' : ∀ x ∈ entries.filter fun e => ¬(g.block e).inDegree = 0, x < g.size :=
      fun x hx => hlt x (List.mem_of_mem_filter hx)
    have hnodup' := hnodup.filter fun e => ¬(g.block e).inDegree = 0
    rw [hsplit] at hlt' hnodup'
    have hiff := mem_topEntries_placeEntered_iff hclaimed hlt' hnodup'
    have hnot : e ∉ entries.filter fun e => (g.block e).inDegree = 0 := by simp [hdegree]
    rw [hsplit, List.mem_append, or_iff_right hnot, hiff, or_iff_right hdegree]
    rw [placeEntered_append, topEntries_append]
    have htried := subset_topEntries_placeEntered
      (before.filter fun e => ¬(g.block e).inDegree = 0) (g.placeFree entries).1
    have hlater := subset_topEntries_placeEntered
      (e :: after.filter fun e => ¬(g.block e).inDegree = 0)
      ((g.placeFree entries).1.placeEntered (before.filter fun e => ¬(g.block e).inDegree = 0)).1
    constructor
    · intro hnone t ht hearly
      rw [← List.append_assoc] at ht
      rcases List.mem_append.1 ht with ht | ht
      · exact hnone t ht
      · -- what is tried later has an edge into it and does not stand in front
        have ht' := hlater ht
        have hentered : ¬(g.block t).inDegree = 0 := by
          rcases List.mem_cons.1 ht' with rfl | ht'
          · exact hdegree
          · simpa using (List.mem_filter.1 ht').2
        have hbefore : t ∈ before.filter fun e => ¬(g.block e).inDegree = 0 :=
          List.mem_filter.2 ⟨hearly.resolve_left hentered, by simpa using hentered⟩
        exact absurd ht' (List.disjoint_of_nodup_append hnodup' hbefore)
    · intro hnone t ht
      rcases List.mem_append.1 ht with ht | ht
      · exact hnone t (List.mem_append_left _ ht) (.inl (by simpa using (List.mem_filter.1 ht).2))
      · exact hnone t (List.mem_append_right _ (List.mem_append_left _ ht))
          (.inr (List.mem_filter.1 (htried ht)).1)

/-! ## The order of addresses -/

/-- The block `a` stands before `b`: at a lower address, or at the same one and created before. -/
def Precedes (g : Graph) (a b : BlockId) : Prop :=
  (g.block a).pc < (g.block b).pc ∨ (g.block a).pc = (g.block b).pc ∧ a < b

instance (g : Graph) (a b : BlockId) : Decidable (g.Precedes a b) :=
  inferInstanceAs (Decidable (_ ∨ _))

theorem Precedes.irrefl (g : Graph) (a : BlockId) : ¬g.Precedes a a := by
  simp [Precedes]

/-- Of two blocks only one stands before the other. -/
theorem Precedes.asymm {a b : BlockId} (h : g.Precedes a b) : ¬g.Precedes b a := by
  rintro (hlt | ⟨heq, hba⟩) <;> rcases h with hlt' | ⟨heq', hab⟩
  · exact Nat.lt_asymm hlt hlt'
  · exact Nat.ne_of_lt hlt heq'.symm
  · exact Nat.ne_of_lt hlt' heq.symm
  · exact Nat.lt_asymm hba hab

/-- Of two different blocks one does. -/
theorem precedes_or_precedes {a b : BlockId} (hne : a ≠ b) : g.Precedes a b ∨ g.Precedes b a := by
  rcases Nat.lt_trichotomy (g.block a).pc (g.block b).pc with hlt | heq | hgt
  · exact .inl (.inl hlt)
  · exact (Nat.lt_or_gt_of_ne hne).imp (fun hab => .inr ⟨heq, hab⟩) fun hba => .inr ⟨heq.symm, hba⟩
  · exact .inr (.inl hgt)

/-- The index lists blocks by address, and those at one address in the order of their list. -/
theorem Filed.pairwise_indexed (h : Filed g)
    (hordered : ∀ pc, (g.listedAt pc).Pairwise (· < ·)) : g.indexed.Pairwise g.Precedes := by
  have hentry : ∀ x ∈ g.index.entries, x.2 = g.listedAt x.1 := by
    intro x hx
    rw [listedAt, SortedMap.mem_entries_iff.1 hx]
    rfl
  unfold indexed SortedMap.values
  rw [List.pairwise_flatten]
  constructor
  · intro ids hids
    obtain ⟨x, hx, rfl⟩ := List.mem_map.1 hids
    rw [hentry x hx]
    exact (hordered x.1).imp_of_mem fun ha hb hab =>
      .inr ⟨(h.pc_eq ha).trans (h.pc_eq hb).symm, hab⟩
  · rw [List.pairwise_map]
    refine g.index.ordered.imp_of_mem ?_
    intro x y hx hy hxy a ha b hb
    rw [hentry x hx] at ha
    rw [hentry y hy] at hb
    rw [Precedes, h.pc_eq ha, h.pc_eq hb]
    exact .inl (Nat.compare_eq_lt.1 hxy)

/-- A complete index lists the blocks of an address in order of creation. -/
theorem Catalogued.ordered_listedAt (h : Catalogued g) (pc : Address) :
    (g.listedAt pc).Pairwise (· < ·) := by
  rw [h.listed]
  exact List.pairwise_lt_range.filter _

/-- The index lists blocks by address, those at one address in order of creation. -/
theorem Catalogued.pairwise_indexed (h : Catalogued g) : g.indexed.Pairwise g.Precedes :=
  h.filed.pairwise_indexed h.ordered_listedAt

end TraceFlow.Graph
