/-
TraceFlow.Proofs.Text.Lines — the lines of a text, in characters and in
bytes.

* Lines with end marks that are put together are cut as they were
  (`cut_flatMap_written`), and only the last line of a text may lack its
  mark (`ended_of_cutFrom`). So a text can be cut, some of its lines left
  out, and put together again.
* No line holds its own end mark (`mark_not_mem_of_mem_cut`). Hence a line
  that is listed or labelled is one line again.
* The bytes of a text are cut where its characters are (`cut_ofChars`).
  One program reads its input by bytes and another by characters, and they
  agree because the bytes of other characters are neither a line feed nor a
  carriage return: a byte below 128 is a character by itself
  (`utf8EncodeChar_of_mem`).

Cutting keeps what was read of the line at hand, last item first, so the
lemmas by induction are about `cutFrom` with any such items. In the third
one these are characters on one side and bytes on the other, and the
induction is on the characters, with the bytes of one character taken at
once.
-/
import Mathlib.Data.List.Basic
import TraceFlow.Proofs.Text.Utf8
import TraceFlow.Text.Lines

namespace TraceFlow.Text

/-! ## Cutting and putting together -/

section

variable {α : Type} [DecidableEq α] {mark : α} {held xs ys : List α} {l : Line α}

/-- A line with its end mark, if it has one. -/
def Line.written (mark : α) (l : Line α) : List α := l.body ++ if l.ended then [mark] else []

/-- Items that are no end mark belong to the line at hand. -/
theorem cutFrom_append_of_not_mem (h : mark ∉ xs) :
    cutFrom mark held (xs ++ ys) = cutFrom mark (xs.reverse ++ held) ys := by
  induction xs generalizing held with
  | nil => rfl
  | cons x xs ih =>
    obtain ⟨hx, hxs⟩ := not_or.1 (mt List.mem_cons.2 h)
    rw [List.cons_append, cutFrom, if_neg (Ne.symm hx), ih hxs, List.reverse_cons,
      List.append_assoc]
    rfl

/-- No line holds its end mark. -/
theorem mark_not_mem_of_mem_cutFrom (hheld : mark ∉ held) (hl : l ∈ cutFrom mark held xs) :
    mark ∉ l.body := by
  induction xs generalizing held with
  | nil =>
    unfold cutFrom at hl
    split at hl
    · cases hl
    · obtain rfl := List.mem_singleton.1 hl
      simpa using hheld
  | cons x xs ih =>
    unfold cutFrom at hl
    split at hl
    · rcases List.mem_cons.1 hl with rfl | hl
      · simpa using hheld
      · exact ih List.not_mem_nil hl
    · rename_i hx
      exact ih (fun hmem => (List.mem_cons.1 hmem).elim (fun heq => hx heq.symm) hheld) hl

/-- No line holds its own end mark. -/
theorem mark_not_mem_of_mem_cut (hl : l ∈ cut mark xs) : mark ∉ l.body :=
  mark_not_mem_of_mem_cutFrom List.not_mem_nil hl

/-- Every line but the last has its end mark. -/
theorem ended_of_cutFrom {before after : List (Line α)}
    (h : cutFrom mark held xs = before ++ l :: after) : ∀ l ∈ before, l.ended = true := by
  induction xs generalizing held before with
  | nil =>
    unfold cutFrom at h
    split at h
    · simp at h
    · rw [List.singleton_eq_append_iff] at h
      rcases h with ⟨rfl, -⟩ | ⟨-, h⟩
      · exact fun _ hl => absurd hl List.not_mem_nil
      · cases h
  | cons x xs ih =>
    unfold cutFrom at h
    split at h
    · cases before with
      | nil => exact fun _ hl => absurd hl List.not_mem_nil
      | cons b before =>
        obtain ⟨rfl, hrest⟩ := List.cons.inj h
        exact List.forall_mem_cons.2 ⟨rfl, ih hrest⟩
    · exact ih h

/-- Lines with end marks that were put together are cut as they were. -/
theorem cut_flatMap_written {ls : List (Line α)} (hended : ∀ l ∈ ls, l.ended = true)
    (hmark : ∀ l ∈ ls, mark ∉ l.body) : cut mark (ls.flatMap (Line.written mark)) = ls := by
  induction ls with
  | nil => rfl
  | cons l ls ih =>
    obtain ⟨body, ended⟩ := l
    obtain ⟨hl, hls⟩ := List.forall_mem_cons.1 hended
    obtain ⟨hbody, hbodies⟩ := List.forall_mem_cons.1 hmark
    obtain rfl : ended = true := hl
    rw [List.flatMap_cons, Line.written, if_pos rfl, List.append_assoc, List.singleton_append,
      cut_append_mark mark _ hbody, ih hls hbodies]

theorem mem_of_mem_stripped {strip x : α} (h : x ∈ l.stripped strip) : x ∈ l.body := by
  unfold Line.stripped at h
  split at h
  · exact List.dropLast_subset _ h
  · exact h

end

/-- The lines of a text hold no line feed. -/
theorem lineFeed_not_mem_of_mem_lines {text line : List Char} (h : line ∈ lines text) :
    '\n' ∉ line := by
  obtain ⟨l, hl, rfl⟩ := List.mem_map.1 h
  exact fun hmem => mark_not_mem_of_mem_cut hl (mem_of_mem_stripped hmem)

/-! ## Lines in bytes -/

open Utf8

/-- Among the bytes of a character, an ASCII one is all of them. -/
theorem utf8EncodeChar_of_mem {c : Char} {b : UInt8} (hb : b.toNat < 0x80)
    (hmem : b ∈ String.utf8EncodeChar c) :
    String.utf8EncodeChar c = [b] ∧ c = Char.ofNat b.toNat := by
  rcases utf8EncodeChar_cases c with ⟨hc, heq⟩ | ⟨-, hhigh⟩
  · rw [heq, List.mem_singleton] at hmem
    subst hmem
    refine ⟨heq, ?_⟩
    rw [UInt8.toNat_ofNat', Nat.mod_eq_of_lt (by omega), Char.ofNat_toNat]
  · exact absurd hb (Nat.not_lt.2 (hhigh b hmem))

/-- The bytes of another character hold no line feed. -/
theorem lineFeed_not_mem_utf8EncodeChar {c : Char} (hc : c ≠ '\n') :
    10 ∉ String.utf8EncodeChar c :=
  fun hmem => hc (utf8EncodeChar_of_mem (by decide) hmem).2

def Line.encoded (l : Line Char) : Line UInt8 := ⟨ofChars l.body, l.ended⟩

theorem ofChars_eq_nil_iff {cs : List Char} : ofChars cs = [] ↔ cs = [] := by
  cases cs with
  | nil => simp
  | cons c cs => simp

/-- Going on with a line, by induction on the characters that are left. -/
theorem cutFrom_ofChars (held cs : List Char) :
    cutFrom 10 (ofChars held.reverse).reverse (ofChars cs) =
      (cutFrom '\n' held cs).map Line.encoded := by
  induction cs generalizing held with
  | nil =>
    have hempty : (ofChars held.reverse).reverse.isEmpty = held.isEmpty := by
      rw [Bool.eq_iff_iff, List.isEmpty_iff, List.isEmpty_iff, List.reverse_eq_nil_iff,
        ofChars_eq_nil_iff, List.reverse_eq_nil_iff]
    rw [ofChars_nil, cutFrom, cutFrom, hempty]
    split
    · rfl
    · simp [Line.encoded]
  | cons c cs ih =>
    rw [ofChars_cons]
    by_cases hc : c = '\n'
    · subst hc
      show cutFrom 10 _ (10 :: ofChars cs) = _
      rw [cutFrom, if_pos rfl, cutFrom, if_pos rfl, List.map_cons, List.reverse_reverse]
      exact congrArg _ (ih [])
    · rw [cutFrom_append_of_not_mem (lineFeed_not_mem_utf8EncodeChar hc), cutFrom, if_neg hc,
        ← ih (c :: held), List.reverse_cons, ofChars_append, List.reverse_append]
      simp

/-- The bytes of a text are cut where its characters are. -/
theorem cut_ofChars (cs : List Char) : cut 10 (ofChars cs) = (cut '\n' cs).map Line.encoded :=
  cutFrom_ofChars [] cs

theorem getLast?_ofChars {cs : List Char} :
    (ofChars cs).getLast? = some 13 ↔ cs.getLast? = some '\r' := by
  rcases List.eq_nil_or_concat cs with rfl | ⟨init, c, rfl⟩
  · simp
  · rw [List.concat_eq_append, ofChars_append, ofChars_cons, ofChars_nil, List.append_nil,
      List.getLast?_append_of_ne_nil, List.getLast?_concat, Option.some_inj]
    constructor
    · intro h
      exact (utf8EncodeChar_of_mem (by decide) (List.mem_of_getLast? h)).2
    · rintro rfl
      rfl
    · exact String.utf8EncodeChar_ne_nil

/-- A carriage return before the line feed is stripped in bytes as it is in characters. -/
theorem stripped_encoded (l : Line Char) : l.encoded.stripped 13 = ofChars (l.stripped '\r') := by
  unfold Line.stripped Line.encoded
  simp only [getLast?_ofChars]
  split
  · rename_i h
    obtain ⟨init, hinit⟩ := List.getLast?_eq_some_iff.1 h.2
    rw [hinit, List.dropLast_concat, ofChars_append]
    exact List.dropLast_concat
  · rfl

end TraceFlow.Text
