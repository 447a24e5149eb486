/-
TraceFlow.Proofs.Archive — a map that was written is read back.

A map `Fits` when its numbers fit the words that hold them: 64 bits for
addresses, places, sizes and counters, 32 for block numbers and the counts
of edges. Nothing is asked of its texts or of its shape, so the map need not
be one that a trace leads to; that those fit is another matter and belongs
to the modules about files.

Every part that fits is read back from its document, and there is one lemma
for each part of a map, from the inside out: instructions, kinds, edges,
synthetic blocks, blocks, graphs, diagnostics, counters, maps. All are of
the form `Reads reader document value`, and a record is read by `Reads.record`
with the list of its fields in the order in which they are written. The
fields take turns on an entry that holds what was read so far
(`reads_field`), which is where the order matters.

Two parts are not fields by fields. Maps are written as objects with their
keys as names, numbers among them, and read as lists of entries; the entries
of a map make that map again (`reads_ofMap`). A diagnostic is one of two
alternatives, each with a name of its own.

`FunctionMap.Fits.read?_text` goes from documents to bytes, by the lemma that
what is read from a document is read from its text. `round_trip` adds that
writing what was read gives the same text again, and `sample` is a map with
every kind of part, texts that need escapes and numbers as great as can be.
-/
import TraceFlow.Archive
import TraceFlow.Proofs.Json.Documents
import TraceFlow.Proofs.SortedMap

namespace TraceFlow

/-! ## Numbers that fit -/

def Instruction.Fits (i : Instruction) : Prop := i.pc < wordSize 64

instance (i : Instruction) : Decidable i.Fits := inferInstanceAs (Decidable (_ < _))

def Edge.Fits (e : Edge) : Prop := e.count < wordSize 32

instance (e : Edge) : Decidable e.Fits := inferInstanceAs (Decidable (_ < _))

/-- The numbers of a block fit their words. -/
structure Block.Fits (b : Block) : Prop where
  instructions : ∀ i ∈ b.instructions.toList, i.Fits
  ordinal : ∀ n ∈ b.ordinal, n < wordSize 64
  mergedInto : ∀ id ∈ b.mergedInto, id < wordSize 32
  out : ∀ e ∈ b.out.entries, e.1 < wordSize 32 ∧ e.2.Fits
  into : ∀ e ∈ b.into.entries, e.1 < wordSize 32 ∧ e.2 < wordSize 32

instance (b : Block) : Decidable b.Fits :=
  decidable_of_iff (_ ∧ _ ∧ _ ∧ _ ∧ _)
    ⟨fun ⟨instructions, ordinal, mergedInto, out, into⟩ =>
        ⟨instructions, ordinal, mergedInto, out, into⟩,
      fun h => ⟨h.instructions, h.ordinal, h.mergedInto, h.out, h.into⟩⟩

structure Graph.Fits (g : Graph) : Prop where
  blocks : ∀ b ∈ g.blocks.toList, b.Fits
  index : ∀ e ∈ g.index.entries, e.1 < wordSize 64 ∧ ∀ id ∈ e.2, id < wordSize 32
  digits : g.digits < wordSize 64

instance (g : Graph) : Decidable g.Fits :=
  decidable_of_iff (_ ∧ _ ∧ _)
    ⟨fun ⟨blocks, index, digits⟩ => ⟨blocks, index, digits⟩,
      fun h => ⟨h.blocks, h.index, h.digits⟩⟩

def Diagnostic.Fits : Diagnostic → Prop
  | .returnMiss retPc target line =>
    retPc < wordSize 64 ∧ target < wordSize 64 ∧ line < wordSize 64
  | .unclaimedBlock _ => True

instance : (d : Diagnostic) → Decidable d.Fits
  | .returnMiss .. => inferInstanceAs (Decidable (_ ∧ _ ∧ _))
  | .unclaimedBlock _ => isTrue trivial

/-- All counters, in order. -/
def Tally.counters (t : Tally) : List Nat :=
  [t.lines, t.instructions, t.skippedLines, t.interruptMarkers, t.interrupts, t.calls, t.returns,
    t.returnMisses, t.pendingFrames, t.mergedBlocks]

def Tally.Fits (t : Tally) : Prop := ∀ n ∈ t.counters, n < wordSize 64

instance (t : Tally) : Decidable t.Fits := inferInstanceAs (Decidable (∀ n ∈ t.counters, _))

/-- The numbers of a map fit their words. -/
structure FunctionMap.Fits (m : FunctionMap) : Prop where
  graph : m.graph.Fits
  functions : ∀ e ∈ m.functions.entries, e.2 < wordSize 32
  innerFunctions : ∀ e ∈ m.innerFunctions.entries, e.2 < wordSize 32
  diagnostics : ∀ d ∈ m.diagnostics, d.Fits
  tally : m.tally.Fits

instance (m : FunctionMap) : Decidable m.Fits :=
  decidable_of_iff (_ ∧ _ ∧ _ ∧ _ ∧ _)
    ⟨fun ⟨graph, functions, innerFunctions, diagnostics, tally⟩ =>
        ⟨graph, functions, innerFunctions, diagnostics, tally⟩,
      fun h => ⟨h.graph, h.functions, h.innerFunctions, h.diagnostics, h.tally⟩⟩

namespace Archive

open Json Json.Reader

variable {α β κ σ : Type}

/-! ## Words and fields -/

/-- A number that fits its word is read back. -/
theorem reads_address {n : Nat} (h : n < wordSize 64) : Reads address (.number n) n :=
  .natural h (Nat.le_refl _) _

theorem reads_size {n : Nat} (h : n < wordSize 64) : Reads size (.number n) n :=
  .natural h (Nat.le_refl _) _

theorem reads_word32 {n : Nat} (h : n < wordSize 32) : Reads word32 (.number n) n :=
  .natural h (by decide) _

theorem reads_byte (b : UInt8) : Reads byte (.number b.toNat) b := by
  have hlt : b.toNat < wordSize 8 := b.toNat_lt
  have h : Reads byte (.number b.toNat) (UInt8.ofNat b.toNat) :=
    (Reads.natural hlt (by decide) _).map
  rwa [UInt8.ofNat_toNat] at h

theorem reads_bytes (bs : List UInt8) : Reads (array byte) (.ofBytes bs) bs :=
  .array fun b _ => reads_byte b

/-- An object with one member for each entry of a map is read as that map. -/
theorem reads_ofMap [Ord κ] [Std.TransOrd κ] [Std.LawfulEqOrd κ] [DecidableEq κ] {key : Reader κ}
    {value : Reader α} {name : κ → String} {doc : α → Json} {m : SortedMap κ α}
    (h : ∀ e ∈ m.entries, ReadsKey key name e.1 ∧ Reads value (doc e.2) e.2) :
    Reads (SortedMap.ofList <$> members key value) (ofMap name doc m) m := by
  have hmap : Reads (SortedMap.ofList <$> members key value) (ofMap name doc m)
      (.ofList m.entries) := (Reads.members h).map
  rwa [SortedMap.ofList_entries] at hmap

theorem reads_blockMap {value : Reader α} {doc : α → Json} {m : SortedMap BlockId α}
    (h : ∀ e ∈ m.entries, e.1 < wordSize 32 ∧ Reads value (doc e.2) e.2) :
    Reads (blockMap value) (ofMap Nat.repr doc m) m :=
  reads_ofMap fun e he => ⟨fun ys => takes_numericKey (h e he).1 (by decide) _ ys, (h e he).2⟩

theorem reads_addressMap {value : Reader α} {doc : α → Json} {m : SortedMap Address α}
    (h : ∀ e ∈ m.entries, e.1 < wordSize 64 ∧ Reads value (doc e.2) e.2) :
    Reads (addressMap value) (ofMap Nat.repr doc m) m :=
  reads_ofMap fun e he => ⟨fun ys => takes_numericKey (h e he).1 (Nat.le_refl _) _ ys, (h e he).2⟩

theorem reads_nameMap {value : Reader α} {doc : α → Json} {m : SortedMap String α}
    (h : ∀ e ∈ m.entries, Reads value (doc e.2) e.2) :
    Reads (nameMap value) (ofMap id doc m) m :=
  reads_ofMap fun e he => ⟨fun ys => takes_key e.1 ys, h e he⟩

/-- A field puts what it read in its entry. -/
theorem reads_field {name : String} {read : Reader β} {held : σ → Option β}
    {put : σ → Option β → σ} {j : Json} {b : β} (h : Reads read j b) (s : σ) :
    Reads ((field name read held put).read s) j (put s (some b)) :=
  ⟨h.skips.bind _, fun w level ys hys => (h.takes w level ys hys).bind (.pure _ _)⟩

theorem reads_trailing {f : RecordField σ} {s s' : σ} {j : Json} (h : Reads (f.read s) j s') :
    Reads ((trailing f).read s) j s' := h

end Archive

open Archive Json Json.Reader

/-! ## Instructions -/

/-- An instruction is read back, with a label or without. -/
theorem Instruction.Fits.reads {i : Instruction} (h : i.Fits) :
    Reads (record instructionRecord) i.document i := by
  -- The label is a member only if there is one.
  have hlabel : Gathers instructionRecord.fields
      (i.label.map fun label => ("label", Json.string label)).toList
      ⟨some i.pc, some i.opcode, some i.operand, none⟩
      ⟨some i.pc, some i.opcode, some i.operand, i.label.map some⟩ := by
    cases i.label with
    | none => exact .done _
    | some label =>
      have hread : Reads (option string) (.string label) (some label) :=
        .present (.string label) nofun
      exact .next rfl rfl (reads_trailing (reads_field hread _)) (.done _)
  have hvalue : instructionRecord.value
      ⟨some i.pc, some i.opcode, some i.operand, i.label.map some⟩ = .ok i := by
    obtain ⟨pc, opcode, operand, label⟩ := i
    cases label <;> rfl
  refine .record ?_ hvalue
  refine .next rfl rfl (reads_field (reads_address h) _) ?_
  refine .next rfl rfl (reads_field (reads_bytes i.opcode) _) ?_
  refine .next rfl rfl (reads_trailing (reads_field (reads_bytes i.operand) _)) ?_
  exact hlabel

/-! ## Blocks -/

theorem BlockKind.reads (k : BlockKind) : Reads blockKind (.string k.tag) k := by
  cases k with
  | code => exact .choice_bare rfl fun ys => .pure _ _
  | subroutine => exact .choice_bare rfl fun ys => .pure _ _
  | handler => exact .choice_bare rfl fun ys => .pure _ _

theorem LinkKind.reads (k : LinkKind) : Reads linkKind (.string k.tag) k := by
  cases k with
  | normal => exact .choice_bare rfl fun ys => .pure _ _
  | taken => exact .choice_bare rfl fun ys => .pure _ _
  | notTaken => exact .choice_bare rfl fun ys => .pure _ _
  | callTaken => exact .choice_bare rfl fun ys => .pure _ _
  | returnMiss => exact .choice_bare rfl fun ys => .pure _ _

theorem Edge.Fits.reads {e : Edge} (h : e.Fits) : Reads (record edgeRecord) e.document e := by
  refine .record (s := ⟨some e.kind, some e.count⟩) ?_ rfl
  refine .next rfl rfl (reads_field e.kind.reads _) ?_
  refine .next rfl rfl (reads_field (reads_word32 h) _) ?_
  exact .done _

theorem Synthetic.reads (s : Synthetic) : Reads (record syntheticRecord) s.document s := by
  refine .record (s := ⟨some s.label, some s.mergeable⟩) ?_ rfl
  refine .next rfl rfl (reads_field (.string s.label) _) ?_
  refine .next rfl rfl (reads_field (.bool s.mergeable) _) ?_
  exact .done _

/-- A block is read back, the fields with it that listings do not show. -/
theorem Block.Fits.reads {b : Block} (h : b.Fits) : Reads (record blockRecord) b.document b := by
  have hinstructions : Reads (array (record instructionRecord))
      (.ofList Instruction.document b.instructions.toList) b.instructions.toList :=
    .array fun i hi => (h.instructions i hi).reads
  have hsynthetic : Reads (option (record syntheticRecord))
      (.ofOption Synthetic.document b.synthetic) b.synthetic :=
    .option fun s _ => ⟨s.reads, nofun⟩
  have hordinal : Reads (option size) (.ofOption Json.number b.ordinal) b.ordinal :=
    .option fun n hn => ⟨reads_size (h.ordinal n hn), nofun⟩
  have hwithin : Reads (NameSet.ofNames <$> array string) (.ofList Json.string b.within.names)
      (.ofNames b.within.names) :=
    (Reads.array fun s _ => .string s).map
  rw [NameSet.ofNames_names] at hwithin
  have hmerged : Reads (option word32) (.ofOption Json.number b.mergedInto) b.mergedInto :=
    .option fun id hid => ⟨reads_word32 (h.mergedInto id hid), nofun⟩
  have hout : Reads (blockMap (record edgeRecord)) (ofMap Nat.repr Edge.document b.out) b.out :=
    reads_blockMap fun e he => ⟨(h.out e he).1, (h.out e he).2.reads⟩
  have hinto : Reads (blockMap word32) (ofMap Nat.repr Json.number b.into) b.into :=
    reads_blockMap fun e he => ⟨(h.into e he).1, reads_word32 (h.into e he).2⟩
  refine .record (s := ⟨some b.instructions.toList, some b.kind, some b.synthetic, some b.ordinal,
    some b.takenFound, some b.within, some b.mergedInto, some b.out, some b.into⟩) ?_ rfl
  refine .next rfl rfl (reads_field hinstructions _) ?_
  refine .next rfl rfl (reads_field b.kind.reads _) ?_
  refine .next rfl rfl (reads_field hsynthetic _) ?_
  refine .next rfl rfl (reads_field hordinal _) ?_
  refine .next rfl rfl (reads_field (.bool b.takenFound) _) ?_
  refine .next rfl rfl (reads_field hwithin _) ?_
  refine .next rfl rfl (reads_field hmerged _) ?_
  refine .next rfl rfl (reads_field hout _) ?_
  refine .next rfl rfl (reads_field hinto _) ?_
  exact .done _

/-! ## Graphs -/

/-- A graph is read back: its blocks, its index and its digits. -/
theorem Graph.Fits.reads {g : Graph} (h : g.Fits) : Reads (record graphRecord) g.document g := by
  have hblocks : Reads (array (record blockRecord)) (.ofList Block.document g.blocks.toList)
      g.blocks.toList := .array fun b hb => (h.blocks b hb).reads
  have hindex : Reads (addressMap (array word32))
      (ofMap Nat.repr (Json.ofList Json.number) g.index) g.index :=
    reads_addressMap fun e he =>
      ⟨(h.index e he).1, .array fun id hid => reads_word32 ((h.index e he).2 id hid)⟩
  refine .record (s := ⟨some g.blocks.toList, some g.index, some g.digits⟩) ?_ rfl
  refine .next rfl rfl (reads_field hblocks _) ?_
  refine .next rfl rfl (reads_field hindex _) ?_
  refine .next rfl rfl (reads_field (reads_size h.digits) _) ?_
  exact .done _

/-! ## Diagnostics and counters -/

/-- A diagnostic is read back as the alternative that it is. -/
theorem Diagnostic.Fits.reads {d : Diagnostic} (h : d.Fits) :
    Reads diagnostic d.document d := by
  cases d with
  | returnMiss retPc target line =>
    refine .choice rfl (.record (s := ⟨some retPc, some target, some line⟩) ?_ rfl)
    refine .next rfl rfl (reads_field (reads_address h.1) _) ?_
    refine .next rfl rfl (reads_field (reads_address h.2.1) _) ?_
    refine .next rfl rfl (reads_field (reads_size h.2.2) _) ?_
    exact .done _
  | unclaimedBlock name =>
    refine .choice rfl (.record (s := some name) ?_ rfl)
    refine .next rfl rfl (reads_field (.string name) _) ?_
    exact .done _

theorem Tally.Fits.reads {t : Tally} (h : t.Fits) : Reads (record tallyRecord) t.document t := by
  have hsize : ∀ n ∈ t.counters, Reads size (.number n) n := fun n hn => reads_size (h n hn)
  simp only [counters, List.forall_mem_cons] at hsize
  obtain ⟨hlines, hinstructions, hskipped, hmarkers, hinterrupts, hcalls, hreturns, hmisses,
    hpending, hmerged, -⟩ := hsize
  refine .record (s := ⟨some t.lines, some t.instructions, some t.skippedLines,
    some t.interruptMarkers, some t.interrupts, some t.calls, some t.returns, some t.returnMisses,
    some t.pendingFrames, some t.mergedBlocks⟩) ?_ rfl
  refine .next rfl rfl (reads_field hlines _) ?_
  refine .next rfl rfl (reads_field hinstructions _) ?_
  refine .next rfl rfl (reads_field hskipped _) ?_
  refine .next rfl rfl (reads_field hmarkers _) ?_
  refine .next rfl rfl (reads_field hinterrupts _) ?_
  refine .next rfl rfl (reads_field hcalls _) ?_
  refine .next rfl rfl (reads_field hreturns _) ?_
  refine .next rfl rfl (reads_field hmisses _) ?_
  refine .next rfl rfl (reads_field hpending _) ?_
  refine .next rfl rfl (reads_field hmerged _) ?_
  exact .done _

/-! ## Function maps -/

/-- A map is read back from its document. -/
theorem FunctionMap.Fits.reads {m : FunctionMap} (h : m.Fits) :
    Reads (record mapRecord) m.document m := by
  have hnames : ∀ {names : SortedMap String BlockId}, (∀ e ∈ names.entries, e.2 < wordSize 32) →
      Reads (nameMap word32) (ofMap id Json.number names) names :=
    fun hnames => reads_nameMap fun e he => reads_word32 (hnames e he)
  have hdiagnostics : Reads (array diagnostic) (.ofList Diagnostic.document m.diagnostics)
      m.diagnostics := .array fun d hd => (h.diagnostics d hd).reads
  refine .record (s := ⟨some m.graph, some m.functions, some m.innerFunctions, some m.diagnostics,
    some m.tally⟩) ?_ rfl
  refine .next rfl rfl (reads_field h.graph.reads _) ?_
  refine .next rfl rfl (reads_field (hnames h.functions) _) ?_
  refine .next rfl rfl (reads_field (hnames h.innerFunctions) _) ?_
  refine .next rfl rfl (reads_field hdiagnostics _) ?_
  refine .next rfl rfl (reads_field h.tally.reads _) ?_
  exact .done _

/-- So it is from the bytes of its text. -/
theorem FunctionMap.Fits.read?_text {m : FunctionMap} (h : m.Fits) :
    read? (Utf8.encode (text m)) = .ok m := h.reads.read?_render .tight

/-- A map that fits is read back from its text as it was, and its text is then written again. -/
theorem Archive.round_trip {m : FunctionMap} (h : m.Fits) :
    read? (Utf8.encode (text m)) = .ok m ∧
      (read? (Utf8.encode (text m))).map text = .ok (text m) := by
  have hread := h.read?_text
  refine ⟨hread, ?_⟩
  rw [hread]
  rfl

/-- A map with every kind of part: texts that need escapes, numbers as great as can be. -/
def Archive.sample : FunctionMap where
  graph :=
    { blocks :=
        #[{ instructions :=
              #[⟨18446744073709551615, [0xCD, 0xFF], [0, 2], some "call \"\\\n\x01é😀\""⟩],
            kind := .subroutine, ordinal := some 18446744073709551615, takenFound := true,
            within := .ofNames ["sub_FFFF", ""], mergedInto := some 4294967295,
            out := .ofList [(10, ⟨.callTaken, 4294967295⟩), (9, ⟨.returnMiss, 0⟩)],
            into := .ofList [(4294967295, 1)] },
          { instructions := #[⟨0, [], [], none⟩], synthetic := some ⟨"<\t>", false⟩ }],
      index := .ofList [(18446744073709551615, [0, 1]), (9, []), (10, [4294967295])],
      digits := 16 }
  functions := .ofList [("sub_FFFF", 0), ("\x7f\"", 1)]
  innerFunctions := .ofList [("", 4294967295)]
  diagnostics := [.returnMiss 18446744073709551615 0 12, .unclaimedBlock "loc_0000\r"]
  tally := { lines := 18446744073709551615, mergedBlocks := 1 }

theorem Archive.round_trip_sample :
    sample.Fits ∧ read? (Utf8.encode (text sample)) = .ok sample ∧
      (read? (Utf8.encode (text sample))).map text = .ok (text sample) :=
  ⟨by decide, round_trip (by decide)⟩

end TraceFlow
