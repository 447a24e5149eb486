/-
TraceFlow.Proofs.Listing.Limit — what a limit leaves of a listing.

The limit is looked at behind a chunk, not before it. As long as less was
written than the limit allows, that makes no difference, since a flush
writes one text at most: a run with a limit of `n` writes the first `n`
texts of the run without (`written_run_limited`, by induction on the lines).
When the limit is met, the run stops, and what the other run goes on to
write stands behind what both have written (`written_prefix_run`), so to
take the first `n` leaves it out.

The hypothesis of that, that less was written than the limit allows, fails
at the start for a limit of nothing, and for no other. Then the first chunk
that holds something is written all the same, and the run ends there
(`written_run_zero`, by induction on the lines up to it).
`limited_chunks_written` states both cases, and `limit_zero_exceeded` is a
trace of one line for the second.
-/
import TraceFlow.Proofs.Listing

namespace TraceFlow.Listing

variable {k : Bool} {n : Nat} {l : Listing}

/-! ## What was written stays -/

/-- What was written stays when a chunk ends. -/
theorem written_prefix_flush (l : Listing) : l.written.toList <+: l.flush.written.toList := by
  unfold flush
  split
  · exact List.prefix_rfl
  · dsimp only
    split
    · exact List.prefix_rfl
    · rw [write, Array.toList_push]
      exact List.prefix_append _ _

/-- The end of a chunk writes one text at most. -/
theorem count_flush_le (l : Listing) : l.flush.count ≤ l.count + 1 := by
  rw [count_eq, count_eq]
  unfold flush
  split
  · exact Nat.le_succ _
  · dsimp only
    split
    · exact Nat.le_succ _
    · simp [write]

theorem count_add (line : List Char) : (l.add k line).count = l.count := by
  rw [count_eq, count_eq, written_add]

/-- A run writes behind what was written before. -/
theorem written_prefix_run (o : Options) (l : Listing) (lines : List (Text.Line UInt8)) :
    l.written.toList <+: (run o l lines).1.written.toList := by
  induction lines generalizing l with
  | nil => exact written_prefix_flush l
  | cons line lines ih =>
    unfold run
    split
    · exact List.prefix_rfl
    · split
      · dsimp only
        split
        · exact written_prefix_flush l
        · exact (written_prefix_flush l).trans (ih _)
      · rename_i text _ _
        rw [← written_add (k := o.keepLines) text]
        exact ih _

/-! ## Runs with a limit -/

/-- While less was written than the limit allows, a run with the limit writes the first texts of the
run without. -/
theorem written_run_limited {lines : List (Text.Line UInt8)} (htext : ∀ line ∈ lines, isText line)
    (hn : l.count < n) :
    (run ⟨k, some n⟩ l lines).2 = true ∧
      (run ⟨k, some n⟩ l lines).1.written.toList =
        (run ⟨k, none⟩ l lines).1.written.toList.take n := by
  induction lines generalizing l with
  | nil =>
    have hcount : l.flush.count ≤ n := (count_flush_le l).trans hn
    exact ⟨rfl, (List.take_of_length_le (count_eq _ ▸ hcount)).symm⟩
  | cons line lines ih =>
    obtain ⟨hline, hlines⟩ := List.forall_mem_cons.1 htext
    obtain ⟨text, htext⟩ := Option.isSome_iff_exists.1 hline
    simp only [run, htext]
    by_cases hsep : isSeparator text
    · simp only [hsep, if_true, isFull, Bool.false_eq_true, if_false, decide_eq_true_eq]
      by_cases hfull : n ≤ l.flush.count
      · -- the limit is met exactly, and what would follow stands behind it
        have hcount : l.flush.written.toList.length = n :=
          count_eq l.flush ▸ Nat.le_antisymm ((count_flush_le l).trans hn) hfull
        rw [if_pos hfull]
        refine ⟨rfl, ?_⟩
        rw [← hcount]
        exact List.prefix_iff_eq_take.1 (written_prefix_run _ _ _)
      · rw [if_neg hfull]
        exact ih hlines (Nat.lt_of_not_le hfull)
    · simp only [hsep, Bool.false_eq_true, if_false]
      exact ih hlines (by rwa [count_add])

/-- A listing that has written nothing writes the chunk if it holds something. -/
theorem written_flush_of_empty (hl : l.written.toList = []) :
    l.flush.written.toList = ([l.pending.reverse].filter (· ≠ [])).map chunkText := by
  have hlists : ∀ text, text ∉ l.seen := by
    intro text
    rw [l.mem_seen, ← Array.mem_toList_iff, hl]
    exact List.not_mem_nil
  by_cases hnil : l.pending = []
  · rw [flush_of_pending_eq_nil hnil, hl, hnil]
    rfl
  · rw [flush, if_neg (mt List.isEmpty_iff.1 hnil)]
    simp only [hlists, dite_false]
    simp [write, text, hl, hnil]

/-- A limit of nothing lets the first chunk through. -/
theorem written_run_zero {lines : List (Text.Line UInt8)} {texts : List (List Char)}
    (htexts : lines.map lineText? = texts.map some) (hl : l.written.toList = []) :
    (run ⟨k, some 0⟩ l lines).2 = true ∧
      (run ⟨k, some 0⟩ l lines).1.written.toList =
        (((chunksFrom k l.pending.reverse texts).take 1).filter (· ≠ [])).map chunkText := by
  induction lines generalizing l texts with
  | nil =>
    obtain rfl : texts = [] := by simpa using htexts.symm
    exact ⟨rfl, written_flush_of_empty hl⟩
  | cons line lines ih =>
    obtain ⟨text, texts, rfl, hline, hrest⟩ := List.map_eq_cons_iff.1 htexts.symm
    simp only [run, ← hline, chunksFrom]
    by_cases hsep : isSeparator text
    · simp only [hsep, if_true, isFull, Nat.zero_le, decide_true]
      exact ⟨trivial, written_flush_of_empty hl⟩
    · simp only [hsep, Bool.false_eq_true, if_false]
      rw [← reverse_pending_add]
      exact ih hrest.symm (by rwa [written_add])

/-! ## The listing of a trace with a limit -/

theorem isText_of_mem_encode (text : String) :
    ∀ line ∈ Text.cut 10 (Utf8.encode text), isText line := by
  intro line hline
  have hmem := List.mem_map_of_mem (f := lineText?) hline
  rw [lineText?_encode] at hmem
  obtain ⟨chars, -, heq⟩ := List.mem_map.1 hmem
  rw [isText, ← heq, Option.isSome_some]

/-- A limit of nothing lets the first chunk of a trace through, unless it is empty. -/
theorem written_follow_zero (k : Bool) (text : String) :
    (follow ⟨k, some 0⟩ (Utf8.encode text)).2 = true ∧
      (follow ⟨k, some 0⟩ (Utf8.encode text)).1.written.toList =
        (((chunks k (Text.lines text.toList)).take 1).filter (· ≠ [])).map chunkText := by
  rw [← chunksFrom_nil]
  exact written_run_zero (lineText?_encode text) rfl

/-- **A limit above nothing keeps the first texts of a listing**: as many as it allows, or all of
them. A limit of nothing keeps the first chunk, unless that is empty. Either way the listing counts
what it wrote. -/
theorem limited_chunks_written (keepLines : Bool) (n : Nat) (text : String) :
    let unlimited := follow ⟨keepLines, none⟩ (Utf8.encode text)
    let limited := follow ⟨keepLines, some n⟩ (Utf8.encode text)
    limited.2 = true ∧
      limited.1.count = limited.1.written.toList.length ∧
      limited.1.written.toList =
        if n = 0 then
          (((chunks keepLines (Text.lines text.toList)).take 1).filter (· ≠ [])).map chunkText
        else unlimited.1.written.toList.take n := by
  by_cases hn : n = 0
  · subst hn
    obtain ⟨hcomplete, hwritten⟩ := written_follow_zero keepLines text
    exact ⟨hcomplete, count_eq _, hwritten⟩
  · have hcount : count {} < n := Nat.pos_of_ne_zero hn
    obtain ⟨hcomplete, hwritten⟩ :=
      written_run_limited (k := keepLines) (isText_of_mem_encode text) hcount
    exact ⟨hcomplete, count_eq _, by rw [if_neg hn]; exact hwritten⟩

/-- One instruction is listed under a limit of nothing. -/
theorem limit_zero_exceeded :
    ofTrace ⟨false, some 0⟩ (Utf8.encode "PC: 0100 | OPCODE: 00\n") =
        (["0100 - nop\n--------------------"], true) ∧
      ¬ ∀ (keepLines : Bool) (n : Nat) (text : String),
        (ofTrace ⟨keepLines, some n⟩ (Utf8.encode text)).1 =
          (ofTrace ⟨keepLines, none⟩ (Utf8.encode text)).1.take n := by
  obtain ⟨hcomplete, hwritten⟩ := written_follow_zero false "PC: 0100 | OPCODE: 00\n"
  have hlisted : ofTrace ⟨false, some 0⟩ (Utf8.encode "PC: 0100 | OPCODE: 00\n") =
      (["0100 - nop\n--------------------"], true) := by
    refine Prod.ext (hwritten.trans ?_) hcomplete
    decide +kernel
  refine ⟨hlisted, fun h => ?_⟩
  have hzero := h false 0 "PC: 0100 | OPCODE: 00\n"
  rw [hlisted] at hzero
  cases hzero

end TraceFlow.Listing
