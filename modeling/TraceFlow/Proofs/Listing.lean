/-
TraceFlow.Proofs.Listing — a listing writes every distinct chunk once.

`chunks` says what a listing is about without running it: what is listed for
the lines between separators, as lists. `firsts` keeps the distinct ones that
hold something, where they stand first. The claim is that the texts written
are the texts of those, and three things stand between the two.

* The listing compares texts, and the claim compares lists. That this is the
  same is `chunkText_injective`: a text is the entries with line feeds
  between them and a rule at the end, and no entry holds a line feed, as
  every entry is one line of the trace or a mnemonic
  (`lineFeed_not_mem_listed`).
* The listing runs. `Lists` ties it to the chunks that have ended: their
  distinct texts were written, in order. Flushing carries it on by one chunk
  (`Lists.flushed`, by whether the chunk is empty, or stands among those
  before), a line by one entry (`Lists.added`), and a run by all that are
  left (`Lists.ran`, by induction on the lines). `chunksFrom` is `chunks` in
  the middle of a chunk, and gives the run something to count down to.
* A trace may hold a line that is no text. The listing fails there, and has
  then written what it writes for the part of the trace up to the last
  separator before that line. `settledPart` is that part, as bytes; it is cut
  as it was (`cut_settledPart`), the lines behind the separator write nothing
  (`written_foldl_step`), and the ones before end a chunk
  (`pending_foldl_step`).

`distinct_chunks_written` states both halves, for lines kept and not kept.
-/
import Mathlib.Data.List.DropRight
import TraceFlow.Listing
import TraceFlow.Proofs.Mnemonic
import TraceFlow.Proofs.Text.Lines

namespace TraceFlow

/-! ## Lists without repeats -/

section

variable {α : Type} [BEq α] [LawfulBEq α]

/-- One more item is kept if it is new. -/
theorem eraseDups_concat (xs : List α) (x : α) :
    (xs ++ [x]).eraseDups = if x ∈ xs then xs.eraseDups else xs.eraseDups ++ [x] := by
  rw [List.eraseDups_append]
  by_cases hx : x ∈ xs <;> simp [List.removeAll, hx, List.eraseDups_cons]

theorem nodup_eraseDups (xs : List α) : xs.eraseDups.Nodup := by
  induction xs using List.reverseRecOn with
  | nil => exact List.nodup_nil
  | append_singleton xs x ih =>
    rw [eraseDups_concat]
    split
    · exact ih
    · rename_i hx
      refine List.nodup_append.2 ⟨ih, List.pairwise_singleton _ x, fun a ha b hb heq => hx ?_⟩
      rw [← List.mem_singleton.1 hb, ← heq]
      exact List.mem_eraseDups.1 ha

end

namespace Listing

/-! ## Chunks -/

/-- The chunks of a trace: what is listed for the lines between its separators. -/
def chunks (keepLines : Bool) (lines : List (List Char)) : List (List String) :=
  (lines.splitOnP isSeparator).map (·.filterMap (listed? keepLines))

/-- The distinct chunks that hold something, in order of first occurrence. -/
def firsts (chunks : List (List String)) : List (List String) :=
  (chunks.filter (· ≠ [])).eraseDups

/-- A chunk as it is printed: its lines, and a rule. -/
def rendering (entries : List String) : String :=
  String.join ((entries ++ [rule]).map (· ++ "\n"))

/-- The chunks of lines that come after a chunk has begun. -/
def chunksFrom (keepLines : Bool) (held : List String) : List (List Char) → List (List String)
  | [] => [held]
  | line :: lines =>
    if isSeparator line then held :: chunksFrom keepLines [] lines
    else chunksFrom keepLines (held ++ (listed? keepLines line).toList) lines

variable {k : Bool} {l : Listing} {ended : List (List String)}

theorem chunksFrom_eq_modifyHead (held : List String) (lines : List (List Char)) :
    chunksFrom k held lines = (chunks k lines).modifyHead (held ++ ·) := by
  induction lines generalizing held with
  | nil => simp [chunksFrom, chunks, List.splitOnP_nil]
  | cons line lines ih =>
    obtain ⟨c, cs, hsplit⟩ := List.exists_cons_of_ne_nil (List.splitOnP_ne_nil isSeparator lines)
    rw [chunksFrom, ih, ih, chunks, chunks, List.splitOnP_cons_eq_if_modifyHead, hsplit]
    split
    · simp
    · cases hentry : listed? k line <;> simp [hentry]

/-- At the beginning of a chunk these are the chunks. -/
theorem chunksFrom_nil (lines : List (List Char)) : chunksFrom k [] lines = chunks k lines := by
  rw [chunksFrom_eq_modifyHead]
  cases chunks k lines <;> simp

/-- One more chunk is a first one if it holds something and was not there before. -/
theorem firsts_concat (ended : List (List String)) (c : List String) :
    firsts (ended ++ [c]) = if c = [] ∨ c ∈ ended then firsts ended else firsts ended ++ [c] := by
  by_cases hc : c = []
  · simp [firsts, List.filter_append, hc]
  · simp [firsts, List.filter_append, hc, eraseDups_concat]

/-! ## Entries and texts -/

/-- An entry stands on one line, as its line does. -/
theorem lineFeed_not_mem_listed {line : List Char} {e : String} (hline : '\n' ∉ line)
    (he : listed? k line = some e) : '\n' ∉ e.toList := by
  unfold listed? at he
  split at he
  · rename_i i _
    have hlabel := Mnemonic.lineFeed_not_mem_label i.opcode i.operand
    split at he <;> cases he
    · simp [hline, hlabel]
    · simp [Hex.lineFeed_not_mem_padded, hlabel]
  · split at he <;> cases he
    simpa using hline

/-- Lines that were joined are cut apart again. -/
theorem intercalate_injective {ls ms : List (List Char)} (hls : ∀ l ∈ ls, '\n' ∉ l)
    (hms : ∀ m ∈ ms, '\n' ∉ m) (hl : ls ≠ []) (hm : ms ≠ [])
    (h : ['\n'].intercalate ls = ['\n'].intercalate ms) : ls = ms := by
  rw [← List.splitOn_intercalate '\n' hls hl, h, List.splitOn_intercalate '\n' hms hm]

/-- Different chunks have different texts. -/
theorem chunkText_injective {c d : List String} (hc : ∀ e ∈ c, '\n' ∉ e.toList)
    (hd : ∀ e ∈ d, '\n' ∉ e.toList) (hcne : c ≠ []) (hdne : d ≠ [])
    (h : chunkText c = chunkText d) : c = d := by
  unfold chunkText at h
  have hlists := congrArg String.toList h
  simp only [String.toList_append, List.append_left_inj, String.toList_intercalate] at hlists
  have hmaps : c.map String.toList = d.map String.toList :=
    intercalate_injective (by simpa using hc) (by simpa using hd) (by simpa using hcne)
      (by simpa using hdne) hlists
  exact List.map_injective_iff.2 (fun _ _ => String.toList_inj.1) hmaps

theorem join_map_lineFeed {c : List String} (hc : c ≠ []) :
    String.join (c.map (· ++ "\n")) = "\n".intercalate c ++ "\n" := by
  induction c with
  | nil => exact absurd rfl hc
  | cons e c ih =>
    cases c with
    | nil => simp
    | cons f c =>
      rw [List.map_cons, String.join_cons, ih (List.cons_ne_nil f c), ← String.toList_inj]
      simp [String.toList_intercalate]

/-- A chunk is printed as its rendering. -/
theorem rendering_eq {c : List String} (hc : c ≠ []) : rendering c = chunkText c ++ "\n" := by
  rw [rendering, List.map_append, String.join_append, join_map_lineFeed hc, chunkText]
  simp [String.append_assoc]

/-! ## What a listing has written -/

/-- A listing after chunks have ended: it wrote their distinct texts, and what it looked at stands
on lines of its own. -/
structure Lists (ended : List (List String)) (l : Listing) : Prop where
  /-- The entries of the chunks that have ended stand on one line each. -/
  oneLine : ∀ c ∈ ended, ∀ e ∈ c, '\n' ∉ e.toList
  /-- So do those of the chunk that has not ended. -/
  pending : ∀ e ∈ l.pending, '\n' ∉ e.toList
  /-- The texts of the distinct chunks were written. -/
  written : l.written.toList = (firsts ended).map chunkText

theorem mem_firsts {c : List String} : c ∈ firsts ended ↔ c ∈ ended ∧ c ≠ [] := by
  simp [firsts, List.mem_eraseDups]

/-- The text of a chunk was written if and only if the chunk stands among those that have ended. -/
theorem Lists.text_mem_seen_iff (h : Lists ended l) (hne : l.pending ≠ []) :
    l.text ∈ l.seen ↔ l.pending.reverse ∈ ended := by
  have hrev : l.pending.reverse ≠ [] := List.reverse_ne_nil_iff.2 hne
  rw [l.mem_seen, ← Array.mem_toList_iff, h.written, List.mem_map]
  constructor
  · rintro ⟨c, hc, htext⟩
    obtain ⟨hmem, hcne⟩ := mem_firsts.1 hc
    rw [← chunkText_injective (h.oneLine c hmem) (by simpa using h.pending) hcne hrev htext]
    exact hmem
  · intro hmem
    exact ⟨_, mem_firsts.2 ⟨hmem, hrev⟩, rfl⟩

/-- Behind a flush nothing is pending. -/
@[simp] theorem pending_flush : l.flush.pending = [] := by
  unfold flush
  split
  · rename_i hnil
    exact List.isEmpty_iff.1 hnil
  · dsimp only
    split <;> rfl

theorem flush_of_pending_eq_nil (h : l.pending = []) : l.flush = l := by
  rw [flush, h, List.isEmpty_nil, if_pos rfl]

/-- One more chunk has ended. -/
theorem Lists.flushed (h : Lists ended l) : Lists (ended ++ [l.pending.reverse]) l.flush := by
  refine ⟨?_, by simp, ?_⟩
  · rw [List.forall_mem_append]
    exact ⟨h.oneLine, by simpa using h.pending⟩
  · rw [firsts_concat]
    by_cases hnil : l.pending = []
    · rw [flush_of_pending_eq_nil hnil, if_pos (Or.inl (List.reverse_eq_nil_iff.2 hnil))]
      exact h.written
    · have hseen := h.text_mem_seen_iff hnil
      rw [flush, if_neg (mt List.isEmpty_iff.1 hnil)]
      by_cases hmem : l.pending.reverse ∈ ended
      · simp only [hseen.2 hmem, hmem, or_true, if_true, dite_true]
        exact h.written
      · simp only [mt hseen.1 hmem, hmem, hnil, List.reverse_eq_nil_iff, or_self, if_false,
          dite_false]
        simp [write, h.written, text]

theorem reverse_pending_add (line : List Char) :
    (l.add k line).pending.reverse = l.pending.reverse ++ (listed? k line).toList := by
  unfold add
  cases listed? k line <;> simp

theorem written_add (line : List Char) : (l.add k line).written = l.written := by
  unfold add
  split <;> rfl

/-- One more line of the chunk that has not ended. -/
theorem Lists.added (h : Lists ended l) {line : List Char} (hline : '\n' ∉ line) :
    Lists ended (l.add k line) := by
  refine ⟨h.oneLine, ?_, by rw [written_add]; exact h.written⟩
  unfold add
  cases hentry : listed? k line with
  | none => exact h.pending
  | some e =>
    exact List.forall_mem_cons.2 ⟨lineFeed_not_mem_listed hline hentry, h.pending⟩

/-- A run over text without a limit ends all chunks that are left. -/
theorem Lists.ran {lines : List (Text.Line UInt8)} {texts : List (List Char)}
    (htexts : lines.map lineText? = texts.map some) (hlines : ∀ t ∈ texts, '\n' ∉ t)
    (h : Lists ended l) :
    (run ⟨k, none⟩ l lines).2 = true ∧
      Lists (ended ++ chunksFrom k l.pending.reverse texts) (run ⟨k, none⟩ l lines).1 := by
  induction lines generalizing l ended texts with
  | nil =>
    obtain rfl : texts = [] := by simpa using htexts.symm
    exact ⟨rfl, h.flushed⟩
  | cons line lines ih =>
    obtain ⟨text, texts, rfl, hline, hrest⟩ := List.map_eq_cons_iff.1 htexts.symm
    obtain ⟨htext, hothers⟩ := List.forall_mem_cons.1 hlines
    simp only [run, ← hline, chunksFrom]
    by_cases hsep : isSeparator text
    · simp only [hsep, if_true, isFull, Bool.false_eq_true, if_false]
      simpa using ih hrest.symm hothers h.flushed
    · simp only [hsep, Bool.false_eq_true, if_false]
      rw [← reverse_pending_add]
      exact ih hrest.symm hothers (h.added htext)

/-- A listing that has not begun has written nothing. -/
theorem lists_empty : Lists [] {} := ⟨by simp, by simp, rfl⟩

/-! ## The lines of a text -/

/-- The lines of a text in bytes are its lines in characters. -/
theorem lineText?_encode (text : String) :
    (Text.cut 10 (Utf8.encode text)).map lineText? = (Text.lines text.toList).map some := by
  have hbytes : Utf8.encode text = Utf8.ofChars text.toList := by
    rw [← Utf8.encode_ofList, String.ofList_toList]
  rw [hbytes, Text.cut_ofChars, Text.lines, List.map_map, List.map_map]
  refine List.map_congr_left fun line _ => ?_
  simp only [Function.comp_apply, lineText?]
  rw [Text.stripped_encoded, Utf8.decode?_ofChars]

/-- A listing of a text without a limit. -/
theorem lists_follow (k : Bool) (text : String) :
    (follow ⟨k, none⟩ (Utf8.encode text)).2 = true ∧
      Lists (chunks k (Text.lines text.toList)) (follow ⟨k, none⟩ (Utf8.encode text)).1 := by
  have h := lists_empty.ran (k := k) (lineText?_encode text)
    fun _ ht => Text.lineFeed_not_mem_of_mem_lines ht
  rwa [List.nil_append, List.reverse_nil, chunksFrom_nil] at h

theorem count_eq (l : Listing) : l.count = l.written.toList.length := l.size_seen

/-! ## A line that is no text -/

def isText (line : Text.Line UInt8) : Bool := (lineText? line).isSome

def separates (line : Text.Line UInt8) : Bool := (lineText? line).any isSeparator

/-- The part of a trace up to the last separator before the first line that is no text. -/
def settledPart (bytes : List UInt8) : List UInt8 :=
  (((Text.cut 10 bytes).takeWhile isText).rdropWhile (!separates ·)).flatMap (Text.Line.written 10)

/-- The listing after one more line. -/
def step (k : Bool) (l : Listing) (line : Text.Line UInt8) : Listing :=
  match lineText? line with
  | none => l
  | some text => if isSeparator text then l.flush else l.add k text

/-- Without a limit, a run goes on behind lines of text where those lines leave it. -/
theorem run_append {before rest : List (Text.Line UInt8)} (h : ∀ line ∈ before, isText line) :
    run ⟨k, none⟩ l (before ++ rest) = run ⟨k, none⟩ (before.foldl (step k) l) rest := by
  induction before generalizing l with
  | nil => rfl
  | cons line before ih =>
    obtain ⟨hline, hbefore⟩ := List.forall_mem_cons.1 h
    obtain ⟨text, htext⟩ := Option.isSome_iff_exists.1 hline
    rw [List.cons_append, run, List.foldl_cons, ← ih hbefore]
    simp only [htext, step, isFull, Bool.false_eq_true, if_false]
    split <;> rfl

/-- Lines within a chunk write nothing. -/
theorem written_foldl_step {lines : List (Text.Line UInt8)} (h : ∀ line ∈ lines, !separates line) :
    (lines.foldl (step k) l).written = l.written := by
  induction lines generalizing l with
  | nil => rfl
  | cons line lines ih =>
    obtain ⟨hline, hlines⟩ := List.forall_mem_cons.1 h
    rw [List.foldl_cons, ih hlines, step]
    cases htext : lineText? line with
    | none => rfl
    | some text =>
      have hsep : isSeparator text = false := by simpa [separates, htext] using hline
      simp only [hsep, Bool.false_eq_true, if_false]
      exact written_add text

/-- After a separator no chunk has begun. -/
theorem pending_foldl_step {lines : List (Text.Line UInt8)}
    (h : ∀ hne : lines ≠ [], separates (lines.getLast hne)) (hl : l.pending = []) :
    (lines.foldl (step k) l).pending = [] := by
  rcases List.eq_nil_or_concat lines with rfl | ⟨init, line, rfl⟩
  · exact hl
  · obtain ⟨text, htext, hsep⟩ : ∃ text, lineText? line = some text ∧ isSeparator text := by
      simpa [separates, Option.any_eq_true] using h (by simp)
    rw [List.concat_eq_append, List.foldl_append, List.foldl_cons, List.foldl_nil, step, htext]
    simp [hsep]

/-- The lines of a trace that are text up to the first that is not. -/
theorem exists_cut_eq {bytes : List UInt8} (hbad : ∃ bad ∈ Text.cut 10 bytes, ¬ isText bad) :
    ∃ bad after, Text.cut 10 bytes = (Text.cut 10 bytes).takeWhile isText ++ bad :: after ∧
      lineText? bad = none := by
  obtain ⟨other, hmem, hother⟩ := hbad
  have hne : (Text.cut 10 bytes).dropWhile isText ≠ [] :=
    fun hnil => hother (List.dropWhile_eq_nil_iff.1 hnil other hmem)
  obtain ⟨bad, after, hafter⟩ := List.exists_cons_of_ne_nil hne
  refine ⟨bad, after, by rw [← hafter, List.takeWhile_append_dropWhile], ?_⟩
  have hhead := List.head_dropWhile_not isText hne
  simpa [hafter, isText] using hhead

/-- The lines of the settled part. -/
theorem cut_settledPart {bytes : List UInt8} (hbad : ∃ bad ∈ Text.cut 10 bytes, ¬ isText bad) :
    Text.cut 10 (settledPart bytes) =
      ((Text.cut 10 bytes).takeWhile isText).rdropWhile (!separates ·) := by
  obtain ⟨bad, after, hcut, -⟩ := exists_cut_eq hbad
  refine Text.cut_flatMap_written (fun line hline => ?_) (fun line hline => ?_)
  · exact Text.ended_of_cutFrom hcut line ((List.rdropWhile_prefix _ _).subset hline)
  · exact Text.mark_not_mem_of_mem_cut
      (List.takeWhile_subset _ ((List.rdropWhile_prefix _ _).subset hline))

/-- A line that is no text ends a listing, with what was written up to the last separator before
it. -/
theorem ofTrace_of_not_isText (k : Bool) {bytes : List UInt8}
    (hbad : ∃ bad ∈ Text.cut 10 bytes, ¬ isText bad) :
    ∃ texts, ofTrace ⟨k, none⟩ (settledPart bytes) = (texts, true) ∧
      ofTrace ⟨k, none⟩ bytes = (texts, false) := by
  obtain ⟨bad, after, hcut, hnone⟩ := exists_cut_eq hbad
  set before := (Text.cut 10 bytes).takeWhile isText with hbefore
  have htext : ∀ line ∈ before, isText line := fun line hline => List.mem_takeWhile_imp hline
  let settled := before.rdropWhile (!separates ·)
  let begun := before.rtakeWhile (!separates ·)
  have hsplit : settled ++ begun = before := List.rdropWhile_append_rtakeWhile
  have hfails : follow ⟨k, none⟩ bytes = (before.foldl (step k) {}, false) := by
    rw [follow, hcut, run_append htext, run, hnone]
  have hsettled : follow ⟨k, none⟩ (settledPart bytes) = (settled.foldl (step k) {}, true) := by
    have hpending : (settled.foldl (step k) {}).pending = [] :=
      pending_foldl_step (fun hne => by simpa using List.rdropWhile_last_not _ _ hne) rfl
    have hrun : run ⟨k, none⟩ {} (settled ++ []) = run ⟨k, none⟩ (settled.foldl (step k) {}) [] :=
      run_append fun line hline => htext line ((List.rdropWhile_prefix _ _).subset hline)
    rw [follow, cut_settledPart hbad, ← hbefore]
    rw [List.append_nil] at hrun
    rw [hrun, run, flush_of_pending_eq_nil hpending]
  have hwritten : (before.foldl (step k) {}).written = (settled.foldl (step k) {}).written := by
    rw [← hsplit, List.foldl_append]
    exact written_foldl_step fun line hline =>
      List.mem_rtakeWhile_imp (p := (!separates ·)) hline
  refine ⟨(settled.foldl (step k) {}).written.toList, ?_, ?_⟩
  · simp only [ofTrace, hsettled]
  · simp only [ofTrace, hfails, hwritten]

/-! ## The listing of a trace -/

/-- **A listing without a limit writes every distinct chunk once**, in order of first occurrence,
and counts what it wrote. A line that is no text makes it fail; it has then written what it writes
for the part of the trace up to the last separator before the first such line. -/
theorem distinct_chunks_written (keepLines : Bool) :
    (∀ text : String,
      let result := follow ⟨keepLines, none⟩ (Utf8.encode text)
      let distinct := firsts (chunks keepLines (Text.lines text.toList))
      result.2 = true ∧
        printed result.1.written.toList = String.join (distinct.map rendering) ∧
        distinct.Nodup ∧ result.1.count = distinct.length) ∧
    ∀ bytes : List UInt8, (∃ bad ∈ Text.cut 10 bytes, ¬ isText bad) →
      ∃ texts, ofTrace ⟨keepLines, none⟩ (settledPart bytes) = (texts, true) ∧
        ofTrace ⟨keepLines, none⟩ bytes = (texts, false) := by
  refine ⟨fun text => ?_, fun bytes hbad => ofTrace_of_not_isText keepLines hbad⟩
  obtain ⟨hcomplete, hlists⟩ := lists_follow keepLines text
  refine ⟨hcomplete, ?_, nodup_eraseDups _, ?_⟩
  · rw [hlists.written, printed, List.map_map]
    refine congrArg String.join (List.map_congr_left fun c hc => ?_)
    exact (rendering_eq (mem_firsts.1 hc).2).symm
  · rw [count_eq, hlists.written, List.length_map]

/-- A chunk, a separator, and a chunk that a byte breaks off which no text has. -/
theorem distinct_chunks_written_broken :
    let bytes := Utf8.encode "boot\n--\nhalt\n" ++ [0xFF, 10]
    settledPart bytes = Utf8.encode "boot\n--\n" ∧
      ∃ texts, ofTrace ⟨true, none⟩ (Utf8.encode "boot\n--\n") = (texts, true) ∧
        ofTrace ⟨true, none⟩ bytes = (texts, false) := by
  have hsettled : settledPart (Utf8.encode "boot\n--\nhalt\n" ++ [0xFF, 10]) =
      Utf8.encode "boot\n--\n" := by decide +kernel
  refine ⟨hsettled, ?_⟩
  rw [← hsettled]
  exact (distinct_chunks_written true).2 _ ⟨⟨[0xFF], true⟩, by decide +kernel, by decide +kernel⟩

end Listing

end TraceFlow
