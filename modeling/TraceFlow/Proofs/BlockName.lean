/-
TraceFlow.Proofs.BlockName — different blocks are written differently.

Names are kept apart as structures by the catalogue; functions, successors
and files are kept under their texts. So the text of a name has to determine
the name, with the digits of addresses given.

The text is cut where the kinds of its characters change. The word for the
kind has three letters and an underscore behind it (`word_inj`); the address
is written in hex digits, with zeros in front of it up to the width, which
do not change what they spell (`fill_upperDigits_inj`); the ordinal stands
in decimal digits behind an underscore, and only then may an S follow
(`tail_inj`). A sequence is cut by a property of its characters if those in
front have it and the first one behind has not (`append_inj_of_class`), and
this is used twice. Neither an underscore nor an S is a hex digit, so what
follows the address does not begin with one (`not_isDigit_head_tail`).

`render_injective` puts it together. Besides, a name is one word
(`IsWord.render`): it holds letters, digits and underscores only, so it can
stand between any punctuation, and every reader of a sheet relies on that.
-/
import Std.Data.String.ToNat
import TraceFlow.Block

namespace TraceFlow

/-- Two cuts of one text at the place where a property of its characters ends are the same cut. -/
theorem append_inj_of_class {p : Char → Bool} {xs ys xs' ys' : List Char}
    (hxs : ∀ c ∈ xs, p c) (hxs' : ∀ c ∈ xs', p c) (hys : ∀ c ∈ ys.head?, p c = false)
    (hys' : ∀ c ∈ ys'.head?, p c = false) (h : xs ++ ys = xs' ++ ys') : xs = xs' ∧ ys = ys' := by
  have hnone : ∀ {zs : List Char}, (∀ c ∈ zs.head?, p c = false) → zs.takeWhile p = [] := by
    intro zs hzs
    cases zs with
    | nil => rfl
    | cons c cs => rw [List.takeWhile_cons, hzs c rfl]; rfl
  have htake := congrArg (List.takeWhile p) h
  rw [List.takeWhile_append_of_pos hxs, List.takeWhile_append_of_pos hxs', hnone hys, hnone hys',
    List.append_nil, List.append_nil] at htake
  subst htake
  exact ⟨rfl, List.append_cancel_left h⟩

namespace Hex

theorem isDigit_toUpper_digitChar {n : Nat} (hn : n < 16) :
    isDigit (Nat.digitChar n).toUpper = true := by
  rw [isDigit, value?_toUpper_digitChar hn]
  rfl

/-- What holds of the sixteen digits holds of all that a number is written with. -/
theorem forall_mem_upperDigits {p : Char → Prop} (hp : ∀ k < 16, p (Nat.digitChar k).toUpper)
    (n : Nat) : ∀ c ∈ upperDigits n, p c := by
  unfold upperDigits
  induction n using Nat.strongRecOn with
  | ind n ih =>
    rw [Nat.toDigits_eq_if (by decide)]
    split
    · rename_i hn
      simp [hp n hn]
    · rename_i hn
      intro c hc
      rw [List.map_append, List.mem_append] at hc
      rcases hc with hc | hc
      · exact ih (n / 16) (by omega) c hc
      · obtain rfl : c = (Nat.digitChar (n % 16)).toUpper := by simpa using hc
        exact hp (n % 16) (by omega)

theorem isDigit_of_mem_upperDigits (n : Nat) : ∀ c ∈ upperDigits n, isDigit c :=
  forall_mem_upperDigits (fun _ => isDigit_toUpper_digitChar) n

theorem isDigit_of_mem_fill (width n : Nat) : ∀ c ∈ fill width (upperDigits n), isDigit c := by
  intro c hc
  rcases List.mem_append.1 hc with hc | hc
  · rw [(List.mem_replicate.1 hc).2]
    decide
  · exact isDigit_of_mem_upperDigits n c hc

/-- An address can be read back, whatever zeros stand in front of it. -/
theorem fill_upperDigits_inj {width m n : Nat}
    (h : fill width (upperDigits m) = fill width (upperDigits n)) : m = n := by
  have hnumber := congrArg number h
  rwa [number_fill, number_fill, number_upper, number_upper] at hnumber

end Hex

namespace BlockName

def suffix (synthetic : Bool) : List Char := if synthetic then ['S'] else []

/-- What follows the address in the text of a name. -/
def tail (n : BlockName) : List Char :=
  (match n.ordinal with
    | some k => '_' :: Nat.toDigits 10 k
    | none => []) ++ suffix n.synthetic

/-- The text of a name: word, underscore, address, and what follows. -/
theorem toList_render (digits : Nat) (n : BlockName) :
    (n.render digits).toList =
      n.kind.word.toList ++ '_' :: (Hex.fill digits (Hex.upperDigits n.pc) ++ n.tail) := by
  obtain ⟨kind, pc, ordinal, synthetic⟩ := n
  cases ordinal <;> cases synthetic <;>
    simp [render, tail, suffix, Hex.padded, Nat.repr_eq_ofList_toDigits]

theorem not_isDigit_head_suffix (synthetic : Bool) :
    ∀ c ∈ (suffix synthetic).head?, c.isDigit = false := by
  cases synthetic
  · exact fun c hc => by cases hc
  · intro c hc
    obtain rfl : 'S' = c := by simpa [suffix] using hc
    decide

theorem not_isDigit_head_tail (n : BlockName) :
    ∀ c ∈ n.tail.head?, Hex.isDigit c = false := by
  obtain ⟨kind, pc, ordinal, synthetic⟩ := n
  intro c hc
  cases ordinal with
  | some k =>
    obtain rfl : '_' = c := by simpa [tail] using hc
    decide
  | none =>
    cases synthetic with
    | false => cases hc
    | true =>
      obtain rfl : 'S' = c := by simpa [tail, suffix] using hc
      decide

theorem suffix_inj {s t : Bool} (h : suffix s = suffix t) : s = t := by
  revert s t
  decide

/-- What follows the address tells the ordinal and whether there is an S. -/
theorem tail_inj {m n : BlockName} (h : m.tail = n.tail) :
    m.ordinal = n.ordinal ∧ m.synthetic = n.synthetic := by
  obtain ⟨_, _, ordinal, synthetic⟩ := m
  obtain ⟨_, _, ordinal', synthetic'⟩ := n
  unfold tail at h
  cases ordinal with
  | none =>
    cases ordinal' with
    | none => exact ⟨rfl, suffix_inj h⟩
    | some k => cases synthetic <;> simp [suffix] at h
  | some j =>
    cases ordinal' with
    | none => cases synthetic' <;> simp [suffix] at h
    | some k =>
      have hdigit : ∀ n, ∀ c ∈ Nat.toDigits 10 n, c.isDigit := fun n c hc =>
        Nat.isDigit_of_mem_toDigits (by decide) (by decide) hc
      obtain ⟨hjk, hsuffix⟩ := append_inj_of_class (hdigit j) (hdigit k)
        (not_isDigit_head_suffix synthetic) (not_isDigit_head_suffix synthetic')
        (List.cons.inj h).2
      have hrepr : Nat.repr j = Nat.repr k := by
        rw [Nat.repr_eq_ofList_toDigits, Nat.repr_eq_ofList_toDigits, hjk]
      exact ⟨congrArg some (Nat.repr_inj.1 hrepr), suffix_inj hsuffix⟩

/-- The word for the kind can be told from what follows. -/
theorem word_inj {j k : BlockKind} {xs ys : List Char}
    (h : j.word.toList ++ '_' :: xs = k.word.toList ++ '_' :: ys) : j = k ∧ xs = ys := by
  cases j <;> cases k <;> simp_all [BlockKind.word]

/-- A letter, a digit or an underscore. -/
def isWordChar (c : Char) : Bool := c.isAlphanum || c = '_'

theorem isWordChar_of_isDigit {c : Char} (h : Hex.isDigit c) : isWordChar c := by
  unfold Hex.isDigit Hex.value? at h
  unfold isWordChar Char.isAlphanum Char.isAlpha Char.isUpper Char.isLower Char.isDigit
  simp only [Char.le_def, ge_iff_le, Bool.or_eq_true, Bool.and_eq_true, decide_eq_true_eq] at *
  split at h
  · rename_i hc
    exact Or.inl (Or.inr hc)
  · split at h
    · rename_i hc
      exact Or.inl (Or.inl (Or.inr ⟨hc.1, Nat.le_trans hc.2 (by decide)⟩))
    · split at h
      · rename_i hc
        exact Or.inl (Or.inl (Or.inl ⟨hc.1, Nat.le_trans hc.2 (by decide)⟩))
      · cases h

theorem isWordChar_of_mem_toDigits {n : Nat} {c : Char} (h : c ∈ Nat.toDigits 10 n) :
    isWordChar c := by
  have hdigit := Nat.isDigit_of_mem_toDigits (by decide) (by decide) h
  simp [isWordChar, Char.isAlphanum, hdigit]

theorem isWordChar_of_mem_word (kind : BlockKind) : ∀ c ∈ kind.word.toList, isWordChar c := by
  cases kind <;> simp [BlockKind.word, isWordChar]

theorem isWordChar_of_mem_tail {n : BlockName} {c : Char} (h : c ∈ n.tail) : isWordChar c := by
  rcases List.mem_append.1 h with h | h
  · cases hordinal : n.ordinal with
    | none => rw [hordinal] at h; cases h
    | some k =>
      rw [hordinal] at h
      rcases List.mem_cons.1 h with rfl | h
      · decide
      · exact isWordChar_of_mem_toDigits h
  · unfold suffix at h
    split at h
    · rw [List.mem_singleton.1 h]
      decide
    · cases h

/-- The text of a name determines the name. -/
theorem render_injective {digits : Nat} {m n : BlockName}
    (h : m.render digits = n.render digits) : m = n := by
  have hlist := congrArg String.toList h
  rw [toList_render, toList_render] at hlist
  obtain ⟨hkind, hrest⟩ := word_inj hlist
  obtain ⟨hpc, htail⟩ := append_inj_of_class (Hex.isDigit_of_mem_fill digits m.pc)
    (Hex.isDigit_of_mem_fill digits n.pc) m.not_isDigit_head_tail n.not_isDigit_head_tail hrest
  obtain ⟨hordinal, hsynthetic⟩ := tail_inj htail
  have hpc := Hex.fill_upperDigits_inj hpc
  cases m
  cases n
  simp_all

end BlockName

/-! ## Words -/

/-- A text of letters, digits and underscores. -/
def IsWord (text : String) : Prop := ∀ c ∈ text.toList, BlockName.isWordChar c

namespace IsWord

/-- No punctuation stands in a word. -/
theorem not_mem {text : String} (h : IsWord text) {c : Char}
    (hc : BlockName.isWordChar c = false) : c ∉ text.toList := by
  intro hmem
  rw [h c hmem] at hc
  cases hc

theorem repr (n : Nat) : IsWord (Nat.repr n) := by
  intro c hc
  rw [Nat.repr_eq_ofList_toDigits, String.toList_ofList] at hc
  exact BlockName.isWordChar_of_mem_toDigits hc

theorem blockTag (id : BlockId) : IsWord (blockTag id) := by
  intro c hc
  rw [TraceFlow.blockTag, String.toList_append] at hc
  rcases List.mem_append.1 hc with hc | hc
  · obtain rfl : c = 'B' := List.mem_singleton.1 hc
    decide
  · exact IsWord.repr id c hc

/-- A name in writing is one word. -/
theorem render (digits : Nat) (n : BlockName) : IsWord (n.render digits) := by
  intro c hc
  rw [BlockName.toList_render] at hc
  rcases List.mem_append.1 hc with hc | hc
  · exact BlockName.isWordChar_of_mem_word n.kind c hc
  · rcases List.mem_cons.1 hc with rfl | hc
    · decide
    · rcases List.mem_append.1 hc with hc | hc
      · exact BlockName.isWordChar_of_isDigit (Hex.isDigit_of_mem_fill digits n.pc c hc)
      · exact BlockName.isWordChar_of_mem_tail hc

end IsWord

end TraceFlow
