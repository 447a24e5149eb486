/-
TraceFlow.SortedMap — finite maps whose entries come in key order.

* `SortedMap κ α` is a search tree whose shape is forgotten, so two maps
  that look up alike are equal (`ext_get?`).
* `entries` lists what a map holds, its keys strictly ascending
  (`ordered`); an entry is listed exactly when look-up finds it
  (`mem_entries_iff`).
* `get?_insert` and `get?_erase` say what the two updates do to every
  look-up; nobody needs the tree behind them after that.
* `NameSet` is the map whose values carry nothing: a set of names in
  ascending order.
-/
import Std.Data.ExtTreeMap

namespace TraceFlow

universe u v

/-- A finite map with ordered keys. -/
structure SortedMap (κ : Type u) (α : Type v) [Ord κ] where
  tree : Std.ExtTreeMap κ α compare

namespace SortedMap

variable {κ : Type u} {α : Type v} [Ord κ]

/-! ## Building -/

def empty : SortedMap κ α := ⟨∅⟩

instance : EmptyCollection (SortedMap κ α) := ⟨empty⟩
instance : Inhabited (SortedMap κ α) := ⟨empty⟩

variable [Std.TransOrd κ]

/-- The map with `a` held for `k`, whatever was held there before. -/
def insert (m : SortedMap κ α) (k : κ) (a : α) : SortedMap κ α := ⟨m.tree.insert k a⟩

def erase (m : SortedMap κ α) (k : κ) : SortedMap κ α := ⟨m.tree.erase k⟩

/-- The map of a list of entries; of two entries with one key the later wins. -/
def ofList (es : List (κ × α)) : SortedMap κ α := es.foldl (fun m e => m.insert e.1 e.2) ∅

/-! ## Looking up -/

def get? (m : SortedMap κ α) (k : κ) : Option α := m.tree[k]?

def contains (m : SortedMap κ α) (k : κ) : Bool := (m.get? k).isSome

/-- The entries, least key first. -/
def entries (m : SortedMap κ α) : List (κ × α) := m.tree.toList

/-- The keys, in ascending order. -/
def keys (m : SortedMap κ α) : List κ := m.entries.map (·.1)

/-- The values, in ascending order of their keys. -/
def values (m : SortedMap κ α) : List α := m.entries.map (·.2)

def size (m : SortedMap κ α) : Nat := m.tree.size

def isEmpty (m : SortedMap κ α) : Bool := m.tree.isEmpty

instance [Std.LawfulEqOrd κ] [DecidableEq α] : DecidableEq (SortedMap κ α) := fun a b =>
  if h : a.tree = b.tree then
    isTrue (by cases a; cases b; cases h; rfl)
  else
    isFalse fun hab => h (by rw [hab])

/-! ## Laws of look-up -/

@[simp] theorem get?_empty (k : κ) : (∅ : SortedMap κ α).get? k = none :=
  Std.ExtTreeMap.getElem?_empty

theorem get?_insert [Std.LawfulEqOrd κ] [DecidableEq κ] (m : SortedMap κ α) (k j : κ) (a : α) :
    (m.insert k a).get? j = if j = k then some a else m.get? j := by
  simp [get?, insert, Std.ExtTreeMap.getElem?_insert, @eq_comm _ j k]

theorem get?_erase [Std.LawfulEqOrd κ] [DecidableEq κ] (m : SortedMap κ α) (k j : κ) :
    (m.erase k).get? j = if j = k then none else m.get? j := by
  simp [get?, erase, Std.ExtTreeMap.getElem?_erase, @eq_comm _ j k]

/-- Two maps that look up alike are equal. -/
theorem ext_get? [Std.LawfulEqOrd κ] {m n : SortedMap κ α} (h : ∀ k, m.get? k = n.get? k) :
    m = n := by
  cases m
  cases n
  exact congrArg mk (Std.ExtTreeMap.ext_getElem? h)

/-! ## Laws of the entries -/

/-- Keys increase strictly from entry to entry. -/
theorem ordered (m : SortedMap κ α) : m.entries.Pairwise fun a b => compare a.1 b.1 = .lt :=
  Std.ExtTreeMap.ordered_keys_toList

theorem length_entries (m : SortedMap κ α) : m.entries.length = m.size :=
  Std.ExtTreeMap.length_toList

@[simp] theorem entries_empty : (∅ : SortedMap κ α).entries = [] :=
  List.eq_nil_of_length_eq_zero (length_entries ∅)

@[simp] theorem keys_empty : (∅ : SortedMap κ α).keys = [] := by simp [keys]

theorem isEmpty_entries (m : SortedMap κ α) : m.entries.isEmpty = m.isEmpty :=
  Std.ExtTreeMap.isEmpty_toList

/-- An entry is listed exactly when its value is what look-up finds for its key. -/
theorem mem_entries_iff [Std.LawfulEqOrd κ] {m : SortedMap κ α} {k : κ} {a : α} :
    (k, a) ∈ m.entries ↔ m.get? k = some a :=
  Std.ExtTreeMap.mem_toList_iff_getElem?_eq_some

theorem mem_keys_iff [Std.LawfulEqOrd κ] {m : SortedMap κ α} {k : κ} :
    k ∈ m.keys ↔ (m.get? k).isSome := by
  constructor
  · intro h
    obtain ⟨e, he, rfl⟩ := List.mem_map.1 h
    rw [(mem_entries_iff (a := e.2)).1 he]
    rfl
  · intro h
    obtain ⟨a, ha⟩ := Option.isSome_iff_exists.1 h
    exact List.mem_map.2 ⟨(k, a), mem_entries_iff.2 ha, rfl⟩

end SortedMap

/-! ## Sets of names -/

/-- A set of names, in ascending order. -/
abbrev NameSet := SortedMap String Unit

namespace NameSet

def add (s : NameSet) (name : String) : NameSet := s.insert name ()

def names (s : NameSet) : List String := s.keys

def ofNames (names : List String) : NameSet := names.foldl add ∅

end NameSet

end TraceFlow
