/-
TraceFlow.Proofs.SortedMap — maps made of lists.

A map is made of a list by entering one entry after the other, so of two
entries with one key the later wins. `get?_insertAll` says what is found in
such a map, for any map to begin with, by induction on the list: either the
list holds the key and one of its values is found, or it does not and
nothing has changed.

From it come the two directions that are used. What the map holds, the list
holds (`mem_of_get?_ofList`); and where a key has one value only, the map
holds that value (`get?_ofList`), so nothing is lost by a list whose keys
differ. In particular the entries of a map make that map again
(`ofList_entries`), which is how a map is read back from its document.

Sets of names are maps to nothing. They have their names for entries, and
the same two facts, `mem_names_ofNames` and `ofNames_names`.
-/
import TraceFlow.SortedMap

namespace TraceFlow

namespace SortedMap

variable {κ α : Type} [Ord κ] [Std.TransOrd κ] [Std.LawfulEqOrd κ] [DecidableEq κ]

omit [DecidableEq κ] in
/-- No key is listed twice. -/
theorem nodup_keys (m : SortedMap κ α) : m.keys.Nodup := by
  refine List.Pairwise.map _ (fun a b hab => ?_) m.ordered
  intro heq
  have hself : compare a.1 b.1 = .eq := Std.LawfulEqOrd.compare_eq_iff_eq.2 heq
  rw [hab] at hself
  cases hself

/-- What is found once all entries of a list were entered. -/
theorem get?_insertAll (es : List (κ × α)) (m : SortedMap κ α) (k : κ) :
    (∃ a, (k, a) ∈ es ∧ (es.foldl (fun m e => m.insert e.1 e.2) m).get? k = some a) ∨
      (∀ a, (k, a) ∉ es) ∧
        (es.foldl (fun m e => m.insert e.1 e.2) m).get? k = m.get? k := by
  induction es generalizing m with
  | nil => exact .inr ⟨fun a => List.not_mem_nil, rfl⟩
  | cons e es ih =>
    rw [List.foldl_cons]
    rcases ih (m.insert e.1 e.2) with ⟨a, ha, hget⟩ | ⟨hnone, hget⟩
    · exact .inl ⟨a, List.mem_cons_of_mem _ ha, hget⟩
    · rw [get?_insert] at hget
      by_cases hk : k = e.1
      · subst hk
        rw [if_pos rfl] at hget
        exact .inl ⟨e.2, List.mem_cons_self, hget⟩
      · rw [if_neg hk] at hget
        refine .inr ⟨fun a ha => ?_, hget⟩
        rcases List.mem_cons.1 ha with heq | ha
        · exact hk (congrArg Prod.fst heq)
        · exact hnone a ha

theorem mem_of_get?_ofList {es : List (κ × α)} {k : κ} {a : α}
    (h : (ofList es).get? k = some a) : (k, a) ∈ es := by
  unfold ofList at h
  rcases get?_insertAll es ∅ k with ⟨b, hb, hget⟩ | ⟨-, hget⟩
  · rw [h, Option.some.injEq] at hget
    rwa [hget]
  · rw [h, get?_empty] at hget
    cases hget

/-- Whatever has an entry in a list, its map holds something for. -/
theorem exists_get?_ofList {es : List (κ × α)} {k : κ} {a : α} (h : (k, a) ∈ es) :
    ∃ b, (ofList es).get? k = some b := by
  unfold ofList
  rcases get?_insertAll es ∅ k with ⟨b, -, hget⟩ | ⟨hnone, -⟩
  · exact ⟨b, hget⟩
  · exact absurd h (hnone a)

/-- A list that has one value only for each key is looked up in by its map. -/
theorem get?_ofList {es : List (κ × α)} {k : κ} {a : α}
    (hes : ∀ b, (k, b) ∈ es → b = a) (h : (k, a) ∈ es) : (ofList es).get? k = some a := by
  obtain ⟨b, hget⟩ := exists_get?_ofList h
  rw [hget, hes b (mem_of_get?_ofList hget)]

/-- The entries of a map make the map again. -/
theorem ofList_entries (m : SortedMap κ α) : ofList m.entries = m := by
  refine ext_get? fun k => ?_
  cases hget : m.get? k with
  | some a =>
    refine get?_ofList (fun b hb => ?_) (mem_entries_iff.2 hget)
    rw [mem_entries_iff, hget] at hb
    exact (Option.some.inj hb).symm
  | none =>
    rw [Option.eq_none_iff_forall_ne_some]
    intro a ha
    rw [mem_entries_iff.1 (mem_of_get?_ofList ha)] at hget
    cases hget

end SortedMap

/-! ## Sets of names -/

namespace NameSet

/-- A name that is added is in the set, and no other is new. -/
theorem contains_add (m : NameSet) (name n : String) :
    (m.add name).contains n = true ↔ n = name ∨ m.contains n = true := by
  unfold add SortedMap.contains
  rw [SortedMap.get?_insert]
  split
  · rename_i heq
    exact ⟨fun _ => .inl heq, fun _ => rfl⟩
  · rename_i hne
    exact ⟨.inr, fun h => h.resolve_left hne⟩

theorem add_add (m : NameSet) (name : String) : (m.add name).add name = m.add name := by
  refine SortedMap.ext_get? fun n => ?_
  unfold add
  rw [SortedMap.get?_insert, SortedMap.get?_insert]
  split <;> rfl

/-- A set that is not empty has a member. -/
theorem exists_of_isEmpty_eq_false {m : NameSet} (h : m.isEmpty = false) :
    ∃ n, m.contains n = true := by
  rw [← SortedMap.isEmpty_entries] at h
  cases hentries : m.entries with
  | nil =>
    rw [hentries] at h
    cases h
  | cons e es =>
    have hmem : (e.1, e.2) ∈ m.entries := hentries ▸ List.mem_cons_self
    have hget := SortedMap.mem_entries_iff.1 hmem
    exact ⟨e.1, by rw [SortedMap.contains, hget]; rfl⟩

theorem mem_names_ofNames {ns : List String} {n : String} :
    n ∈ (ofNames ns).names ↔ n ∈ ns := by
  have hadd : ∀ (ns : List String) (m : NameSet),
      (ns.foldl add m).contains n = true ↔ n ∈ ns ∨ m.contains n = true := by
    intro ns
    induction ns with
    | nil => simp
    | cons name ns ih =>
      intro m
      rw [List.foldl_cons, ih, contains_add, List.mem_cons, or_assoc, or_left_comm]
  have hempty : (∅ : NameSet).contains n = false := by
    rw [SortedMap.contains, SortedMap.get?_empty]
    rfl
  rw [names, SortedMap.mem_keys_iff, ← SortedMap.contains, ofNames, hadd, hempty]
  simp

/-- The names of a set make the set again. -/
theorem ofNames_names (m : NameSet) : ofNames m.names = m := by
  rw [ofNames, names, SortedMap.keys, List.foldl_map]
  exact SortedMap.ofList_entries m

end NameSet

end TraceFlow
