/-
TraceFlow.Proofs.Text.Scanner — reading a line field by field.

The formats that functions are written in have no reader in the program, so
the claims about them need one of their own. A `Scanner` takes characters
off the front of a line. It knows texts that have to stand there (`literal`)
and fields that end at a given character (`field`), and nothing of what was
written, so that reading back is evidence.

`Takes s xs a` says that `s` reads `xs` as `a` in front of anything. The
rest of the line is part of the statement, and so scanners may be put
together: `Takes.bind` is the only rule needed to go from the fields of a
line to the line, in the order in which they stand. `Takes.literal` always
holds; `Takes.field` needs a text that does not hold the character that ends
it.

`parts?` reads a sequence of parts each of which has its end mark: the lines
of a text, or the paragraphs of its lines, by the same definition at two
types. `parts?_flatMap` reads back what was put together of parts that do
not hold the mark.
-/
import TraceFlow.Proofs.Text.Lines

namespace TraceFlow.Text

abbrev Scanner := StateT (List Char) Option

namespace Scanner

variable {α β : Type} {s : Scanner α} {a : α} {b : β} {xs ys : List Char}

/-- Takes a text that has to stand there. -/
def literal (text : String) : Scanner Unit := fun cs =>
  (cs.dropPrefix? text.toList).map ((), ·)

/-- Takes what stands before the first `stop`, and that. -/
def field (stop : Char) : Scanner String := fun cs =>
  match cs.dropWhile (· ≠ stop) with
  | [] => none
  | _ :: rest => some (String.ofList (cs.takeWhile (· ≠ stop)), rest)

def read? (s : Scanner α) (line : List Char) : Option α :=
  match s.run line with
  | some (a, []) => some a
  | _ => none

/-- The scanner reads `xs` as `a`, whatever follows. -/
def Takes (s : Scanner α) (xs : List Char) (a : α) : Prop :=
  ∀ rest, s.run (xs ++ rest) = some (a, rest)

namespace Takes

/-- What is taken in front of anything is taken of a whole line. -/
theorem read? (h : Takes s xs a) : s.read? xs = some a := by
  have hrun := h []
  rw [List.append_nil] at hrun
  rw [Scanner.read?, hrun]

theorem pure (a : α) : Takes (Pure.pure a) [] a := fun _ => rfl

/-- One field after the other. -/
theorem bind {f : α → Scanner β} (h : Takes s xs a) (hf : Takes (f a) ys b) :
    Takes (s >>= f) (xs ++ ys) b := by
  intro rest
  rw [StateT.run_bind, List.append_assoc, h]
  exact hf rest

/-- Looking at what was read takes nothing. -/
theorem lift {o : Option α} (h : o = some a) : Takes (StateT.lift o) [] a := by
  rintro rest
  rw [StateT.run_lift, h]
  rfl

theorem literal (text : String) : Takes (Scanner.literal text) text.toList () := by
  intro rest
  have hdrop : (text.toList ++ rest).dropPrefix? text.toList = some rest :=
    List.dropPrefix?_eq_some_iff.2 ⟨_, rfl, beq_self_eq_true _⟩
  show ((text.toList ++ rest).dropPrefix? text.toList).map ((), ·) = _
  rw [hdrop]
  rfl

theorem field {stop : Char} {text : String} (h : stop ∉ text.toList) :
    Takes (Scanner.field stop) (text.toList ++ [stop]) text := by
  intro rest
  have hall : ∀ c ∈ text.toList, decide (c ≠ stop) = true :=
    fun c hc => decide_eq_true (ne_of_mem_of_not_mem hc h)
  have hdrop : (text.toList ++ [stop] ++ rest).dropWhile (· ≠ stop) = stop :: rest := by
    rw [List.append_assoc, List.dropWhile_append_of_pos hall]
    simp
  have htake : (text.toList ++ [stop] ++ rest).takeWhile (· ≠ stop) = text.toList := by
    rw [List.append_assoc, List.takeWhile_append_of_pos hall]
    simp
  show Scanner.field stop (text.toList ++ [stop] ++ rest) = _
  rw [Scanner.field, hdrop, htake, String.ofList_toList]

end Takes

end Scanner

/-! ## Parts -/

section

variable {α : Type} [DecidableEq α] {mark : α}

/-- The parts of a sequence, if each of them has its end mark. -/
def parts? (mark : α) (xs : List α) : Option (List (List α)) :=
  if (cut mark xs).all (·.ended) then some ((cut mark xs).map (·.body)) else none

/-- Parts with their end marks are read back. -/
theorem parts?_flatMap {parts : List (List α)} (h : ∀ part ∈ parts, mark ∉ part) :
    parts? mark (parts.flatMap (· ++ [mark])) = some parts := by
  have hcut : cut mark (parts.flatMap (· ++ [mark])) = parts.map (⟨·, true⟩) := by
    have hwritten : cut mark ((parts.map fun part => ⟨part, true⟩).flatMap (Line.written mark)) =
        parts.map (⟨·, true⟩) := cut_flatMap_written (by simp) (by simpa using h)
    rwa [List.flatMap_map] at hwritten
  simp [parts?, hcut, Function.comp_def]

/-- A sequence without end marks is one line without one. -/
theorem cut_of_not_mem {xs : List α} (hne : xs ≠ []) (h : mark ∉ xs) :
    cut mark xs = [⟨xs, false⟩] := by
  have hcut : cutFrom mark [] (xs ++ []) = cutFrom mark (xs.reverse ++ []) [] :=
    cutFrom_append_of_not_mem h
  rw [List.append_nil, List.append_nil, cutFrom, if_neg (by simpa using hne),
    List.reverse_reverse] at hcut
  exact hcut

end

/-- Reading what was written item by item gives the items. -/
theorem mapM_map_eq_some {α β γ : Type} {f : β → Option γ} {g : α → β} {k : α → γ} {l : List α}
    (h : ∀ a ∈ l, f (g a) = some (k a)) : (l.map g).mapM f = some (l.map k) := by
  induction l with
  | nil => rfl
  | cons a l ih =>
    obtain ⟨ha, hl⟩ := List.forall_mem_cons.1 h
    simp [ha, ih hl]

end TraceFlow.Text
