/-
TraceFlow.Proofs.Recorder.Balance — calls that return leave nothing
behind.

`Profile.Balanced` is the grammar of the runs that are meant. It speaks of
instructions and of the classes of the CPU only: from an instruction a run
stays, goes on by a step that neither opens nor closes, or opens, runs in
balance, closes right behind the opening, and goes on. The brackets are
kept in a list, opening and landing, since the claim counts traversals
between just those.

A step is related to its effect by `Walk r ups downs bs r₁`: from `r` to
`r₁` no return missed, `ups` calls and interrupts were counted and `downs`
returns, every block stayed where it was, and each bracket of `bs` was
passed once more from its opening to its landing. Walks compose
(`Walk.trans`), so an induction has nothing else to carry.

* `At.plain`, `At.opens` and `At.closes` are the three steps. An opening
  pushes a frame at its site, a close takes that frame away and passes the
  edge from the site to the landing.
* `Balanced.walk` is the induction on the grammar, one case for each of
  its constructors. Its statement is for every recorder that stands at the
  first instruction, because the inner run of a bracket begins in a state
  with one more frame; it ends with the backtrace that it began with.
* `balanced_run_returns` starts it after the first instruction, which is
  only placed (`walk_first`), and adds the end of the trace.

Counts hold at `countLimit`. The statement about traversals is therefore
one of saturated counts, and `Walk.passes` is an inequality until the end,
as a walk may pass an edge for other reasons too.
-/
import TraceFlow.Proofs.Graph.Absorb
import TraceFlow.Proofs.Profile
import TraceFlow.Proofs.Recorder.Arrival
import TraceFlow.Proofs.Recorder.Finish

namespace TraceFlow

/-! ## Bracketed runs -/

/-- An opening instruction and the instruction that it is returned to. -/
abbrev Bracket := Instruction × Instruction

namespace Profile

variable {p : Profile} {a b c d z : Instruction} {flow : Flow}

/-- The step from `a` to `b` is to be returned from: a call that was taken, or a restart that leads
to a vector. -/
inductive Opens (p : Profile) (a b : Instruction) : Flow → Prop
  | call (hclass : p.call.contains a.opcode = true) (htaken : b.pc ≠ a.pc + p.call.size) :
      Opens p a b .call
  | restart (hclass : p.interruptEntry.contains a.opcode = true)
      (hvector : p.isInterruptVector b.pc = true) : Opens p a b .interruptEntry

/-- The step from `c` to `d` is a return that was taken. -/
def Closes (p : Profile) (c d : Instruction) : Prop :=
  p.ret.contains c.opcode = true ∧ d.pc ≠ c.pc + p.ret.size

/-- The step from `a` explains that `b` is at a vector, if it is. -/
inductive Explains (p : Profile) (a b : Instruction) : Prop
  /-- A call or a jump leads there. -/
  | transfer (flow : Flow) (hflow : flow = .call ∨ flow = .jump ∨ flow = .jr)
      (hclass : (p.opcodeClass flow).contains a.opcode = true)
  /-- A return fell through. -/
  | fellThrough (hclass : p.ret.contains a.opcode = true) (hnext : b.pc = a.pc + p.ret.size)
  /-- An instruction of no class stands right before it. -/
  | behind (hclass : ∀ flow, (p.opcodeClass flow).contains a.opcode = false) (hafter : a.pc < b.pc)
      (hnear : (b.pc : Int) - a.pc ≤ signed64 p.maxInstructionSize)

/-- A step that neither opens nor closes and that is explained where it leads to a vector. -/
structure Plain (p : Profile) (a b : Instruction) : Prop where
  opens : ∀ flow, ¬Opens p a b flow
  closes : ¬Closes p a b
  explained : p.isInterruptVector b.pc = true → Explains p a b

/-- The runs from `a` over a list of instructions to `z` whose openings are closed, each by a return
to right behind it, with their brackets in order of closing. -/
inductive Balanced (p : Profile) :
    Instruction → List Instruction → List Bracket → Instruction → Prop
  | stay (a : Instruction) : Balanced p a [] [] a
  | plain {a b z : Instruction} {rest : List Instruction} {bs : List Bracket} (hstep : Plain p a b)
      (hrest : Balanced p b rest bs z) : Balanced p a (b :: rest) bs z
  | bracket {a b c d z : Instruction} {flow : Flow} {inner rest : List Instruction}
      {bs cs : List Bracket} (hopens : Opens p a b flow) (hinner : Balanced p b inner bs c)
      (hcloses : Closes p c d) (hlanding : d.pc = a.pc + (p.opcodeClass flow).size)
      (hvector : p.isInterruptVector d.pc = false) (hrest : Balanced p d rest cs z) :
      Balanced p a (b :: (inner ++ d :: rest)) (bs ++ (a, d) :: cs) z

end Profile

/-! ## Traversals from openings to landings -/

/-- How many brackets of a list are opened at the block of `o` and lead back to the block of `d`:
blocks are told apart by address and opcode. -/
def landings (o d : Instruction) (bs : List Bracket) : Nat :=
  bs.countP fun e => e.1.pc = o.pc ∧ e.1.opcode = o.opcode ∧ e.2.pc = d.pc ∧ e.2.opcode = d.opcode

/-- The brackets of two runs in a row are counted one after the other. -/
theorem landings_append (o d : Instruction) (bs cs : List Bracket) :
    landings o d (bs ++ cs) = landings o d bs + landings o d cs :=
  List.countP_append

namespace Graph

/-- How often control passed from the block of one instruction to the block of another. -/
def passes (g : Graph) (o d : Instruction) : Nat :=
  match g.find? o, g.find? d with
  | some x, some y => g.traversals x y
  | _, _ => 0

theorem passes_eq {g : Graph} {o d : Instruction} {x y : BlockId} (ho : g.find? o = some x)
    (hd : g.find? d = some y) : g.passes o d = g.traversals x y := by
  rw [passes, ho, hd]

/-- Blocks are told apart by address and opcode, so traversals are. -/
theorem passes_congr {g : Graph} {o d o' d' : Instruction} (hpc : o'.pc = o.pc)
    (hopcode : o'.opcode = o.opcode) (hpc' : d'.pc = d.pc) (hopcode' : d'.opcode = d.opcode) :
    g.passes o' d' = g.passes o d := by
  rw [passes, passes, find?_congr hpc hopcode, find?_congr hpc' hopcode']

/-- Passes grow with the graph. -/
theorem passes_le {g g' : Graph} (hfind : ∀ i x, g.find? i = some x → g'.find? i = some x)
    (htraversals : ∀ x y, g.traversals x y ≤ g'.traversals x y) (o d : Instruction) :
    g.passes o d ≤ g'.passes o d := by
  unfold passes
  split
  · rename_i x y ho hd
    rw [hfind o x ho, hfind d y hd]
    exact htraversals x y
  · exact Nat.zero_le _

end Graph

/-! ## Walks -/

namespace Recorder

open TraceFlow.Graph Profile

variable {s : Setup} {r r₁ r₂ : Recorder} {a b c d z o : Instruction} {f : Frame}
  {rest : List Frame} {bs cs : List Bracket} {ups downs : Nat}

/-- What steps that miss no return lead from `r` to `r₁`: `ups` calls and interrupts, `downs`
returns, and a traversal from opening to landing for each of the brackets `bs`. -/
structure Walk (r : Recorder) (ups downs : Nat) (bs : List Bracket) (r₁ : Recorder) : Prop where
  misses : r₁.tally.returnMisses = r.tally.returnMisses
  noMiss : NoMiss r.graph → NoMiss r₁.graph
  entered : r₁.tally.calls + r₁.tally.interrupts = r.tally.calls + r.tally.interrupts + ups
  returned : r₁.tally.returns = r.tally.returns + downs
  find : ∀ i x, r.graph.find? i = some x → r₁.graph.find? i = some x
  passes : ∀ o d, saturate (r.graph.passes o d + landings o d bs) ≤ r₁.graph.passes o d

theorem Walk.refl (r : Recorder) : Walk r 0 0 [] r :=
  ⟨rfl, id, rfl, rfl, fun _ _ hx => hx, fun _ _ => Nat.min_le_left _ _⟩

/-- Walks compose, and their counts add up. -/
theorem Walk.trans {ups' downs' : Nat} (h : Walk r ups downs bs r₁)
    (h' : Walk r₁ ups' downs' cs r₂) : Walk r (ups + ups') (downs + downs') (bs ++ cs) r₂ := by
  refine ⟨h'.misses.trans h.misses, fun hold => h'.noMiss (h.noMiss hold), ?_, ?_,
    fun i x hx => h'.find i x (h.find i x hx), fun o d => ?_⟩
  · rw [h'.entered, h.entered, Nat.add_assoc]
  · rw [h'.returned, h.returned, Nat.add_assoc]
  · have hfirst := h.passes o d
    have hsecond := h'.passes o d
    rw [landings_append]
    unfold saturate at *
    omega

/-- Any step that misses no return is a walk. -/
theorem Sound.walk_record (h : Sound s r) (hb : b.pc < s.profile.beginAddress)
    (hsettled : (arrival s r b).settled ≠ .missed)
    (hups : ((if (arrival s r b).enters = false ∧ (arrival s r b).settled = .none ∧
        s.profile.transfer (arrival s r b).opcode (arrival s r b).offset = .call then 1 else 0) +
      if (arrival s r b).enters then 1 else 0) = ups)
    (hdowns : (if (arrival s r b).settled = .none then 0 else 1) = downs) :
    Walk r ups downs [] (r.record s b) := by
  have htally := congrArg Recorder.tally (record_eq_move s r b)
  rw [tally_move] at htally
  refine ⟨?_, h.noMiss_record b hsettled, ?_, ?_, fun i x hx => h.find?_record hb hx,
    fun o d => ?_⟩
  · rw [htally]
    simp [hsettled, place]
  · rw [htally, ← hups]
    simp only [place]
    omega
  · rw [htally, ← hdowns]
    rfl
  · exact Nat.le_trans (Nat.min_le_left _ _)
      (passes_le (fun i x hx => h.find?_record hb hx) (h.traversals_le_record b) o d)

/-! ## The steps of a bracketed run -/

/-- The backtrace after a step, by how the step was judged. -/
theorem backtrace_record (s : Setup) (r : Recorder) (b : Instruction) :
    (r.record s b).backtrace =
      if (arrival s r b).enters then
        ⟨(arrival s r b).origin r.cursor, (arrival s r b).resume s.profile⟩ ::
          (if (arrival s r b).settled = .none then r.backtrace else r.backtrace.tail)
      else if (arrival s r b).settled = .none ∧
          s.profile.transfer (arrival s r b).opcode (arrival s r b).offset = .call then
        ⟨r.cursor, .past s.profile.call.offset⟩ :: r.backtrace
      else if (arrival s r b).settled = .none then r.backtrace else r.backtrace.tail := by
  rw [record_eq_move, backtrace_move, backtrace_settleReturn]
  rfl

namespace At

variable {flow : Flow}

/-- A step that is no taken return settles none. -/
theorem settled_of_not_closes (h : At s r a) (hp : s.profile.Regular)
    (hb : b.pc < s.profile.beginAddress) (hcloses : ¬Closes s.profile a b) :
    (arrival s r b).settled = .none := by
  rw [h.arrival_eq, if_neg]
  rw [hp.returns_iff h.in_range hb]
  exact hcloses

/-- No handler is entered away from the vectors. -/
theorem enters_of_not_vector (h : At s r a) (hvector : s.profile.isInterruptVector b.pc = false) :
    (arrival s r b).enters = false := by
  rw [h.arrival_eq]
  exact Regular.entersHandler_of_not_vector hvector

/-- A plain step changes nothing that is pending. -/
theorem plain (h : At s r a) (hp : s.profile.Regular) (hpending : r.interruptPending = false)
    (hb : b.pc < s.profile.beginAddress) (hstep : Plain s.profile a b) :
    Walk r 0 0 [] (r.record s b) ∧ (r.record s b).backtrace = r.backtrace := by
  have hsettled := h.settled_of_not_closes hp hb hstep.closes
  have henters : (arrival s r b).enters = false := by
    rw [h.arrival_eq, hpending]
    cases hvector : s.profile.isInterruptVector b.pc with
    | false => exact Regular.entersHandler_of_not_vector hvector
    | true =>
      refine hp.entersHandler_eq_false ?_
      rcases hstep.explained hvector with ⟨flow, hflow, hclass⟩ | ⟨hclass, hnext⟩ |
        ⟨hclass, hafter, hnear⟩
      · exact .inl ⟨flow, hflow, hclass⟩
      · exact .inr (.inl ⟨hclass, (hp.displacement_eq_offset_iff .ret h.in_range hb).2
          hnext⟩)
      · refine .inr (.inr ⟨hclass, ?_⟩)
        rw [hp.displacement_eq h.in_range hb]
        exact ⟨Int.sub_pos.2 (Int.ofNat_lt.2 hafter), hnear⟩
  have htransfer : s.profile.transfer (arrival s r b).opcode (arrival s r b).offset ≠ .call := by
    rw [h.arrival_eq, ne_eq, Regular.transfer_eq_call_iff]
    rintro ⟨hclass, hoffset⟩
    refine hstep.opens .call (.call hclass fun hnext => hoffset ?_)
    exact (hp.displacement_eq_offset_iff .call h.in_range hb).2 hnext
  refine ⟨h.sound.walk_record hb ?_ ?_ ?_, ?_⟩
  · simp [hsettled]
  · simp [henters, htransfer]
  · simp [hsettled]
  · simp [backtrace_record, henters, hsettled, htransfer]

/-- An opening is to be returned from, to right behind it. -/
theorem opens (h : At s r a) (hp : s.profile.Regular) (hpending : r.interruptPending = false)
    (hb : b.pc < s.profile.beginAddress) (hopens : Opens s.profile a b flow) :
    Walk r 1 0 [] (r.record s b) ∧ (r.record s b).backtrace =
      ⟨r.cursor, .past (s.profile.opcodeClass flow).offset⟩ :: r.backtrace := by
  have hcloses : ¬Closes s.profile a b := by
    intro hcloses
    have hret : (s.profile.opcodeClass .ret).contains a.opcode = true := hcloses.1
    cases hopens with
    | call hclass _ =>
      have hcall : (s.profile.opcodeClass .call).contains a.opcode = true := hclass
      exact nomatch hp.eq_of_contains hcall hret
    | restart hclass _ =>
      have hrestart : (s.profile.opcodeClass .interruptEntry).contains a.opcode = true := hclass
      exact nomatch hp.eq_of_contains hrestart hret
  have hsettled := h.settled_of_not_closes hp hb hcloses
  have horigin : (arrival s r b).origin r.cursor = r.cursor := by
    rw [Arrival.origin, hsettled]
  cases hopens with
  | call hclass htaken =>
    have henters : (arrival s r b).enters = false := by
      rw [h.arrival_eq, hpending]
      exact hp.entersHandler_eq_false (.inl ⟨.call, .inl rfl, hclass⟩)
    have htransfer : s.profile.transfer (arrival s r b).opcode (arrival s r b).offset = .call := by
      rw [h.arrival_eq, Regular.transfer_eq_call_iff]
      refine ⟨hclass, fun hoffset => htaken ?_⟩
      exact (hp.displacement_eq_offset_iff .call h.in_range hb).1 hoffset
    refine ⟨h.sound.walk_record hb ?_ ?_ ?_, ?_⟩
    · simp [hsettled]
    · simp [henters, hsettled, htransfer]
    · simp [hsettled]
    · simp [backtrace_record, henters, hsettled, htransfer, Profile.opcodeClass]
  | restart hclass hvector =>
    have henters : (arrival s r b).enters = true := by
      rw [h.arrival_eq]
      exact hp.entersHandler_restart hvector hclass
    have hresume : (arrival s r b).resume s.profile =
        .past (s.profile.opcodeClass .interruptEntry).offset := by
      have hopcode : (arrival s r b).opcode = a.opcode := by rw [h.arrival_eq]
      simp [Arrival.resume, hsettled, hopcode, hclass, Profile.opcodeClass]
    refine ⟨h.sound.walk_record hb ?_ ?_ ?_, ?_⟩
    · simp [hsettled]
    · simp [henters]
    · simp [hsettled]
    · simp [backtrace_record, henters, hsettled, horigin, hresume]

/-- A return to right behind the innermost opening ends it, with a traversal from opening to
landing. -/
theorem closes (h : At s r c) (hp : s.profile.Regular) (hd : d.pc < s.profile.beginAddress)
    (ha : a.pc < s.profile.beginAddress) (hcloses : Closes s.profile c d)
    (hlanding : d.pc = a.pc + (s.profile.opcodeClass flow).size)
    (hvector : s.profile.isInterruptVector d.pc = false) {x : BlockId}
    (hx : r.graph.find? a = some x)
    (hbacktrace : r.backtrace = ⟨x, .past (s.profile.opcodeClass flow).offset⟩ :: rest) :
    Walk r 0 1 [(a, d)] (r.record s d) ∧ (r.record s d).backtrace = rest := by
  obtain ⟨hlt, hpc, -⟩ := h.sound.catalogued.find?_eq_some_iff.1 hx
  have hsettled : (arrival s r d).settled =
      .matched ⟨x, .past (s.profile.opcodeClass flow).offset⟩ := by
    rw [h.arrival_eq, if_pos ((hp.returns_iff h.in_range hd).2 hcloses), hbacktrace]
    have hoffset := (hp.displacement_eq_offset_iff flow ha hd).2 hlanding
    simp [settle, belongs, hpc, hoffset]
  have henters := h.enters_of_not_vector hvector
  have hwalk : Walk r 0 1 [] (r.record s d) := by
    refine h.sound.walk_record hd ?_ ?_ ?_
    · simp [hsettled]
    · simp [henters, hsettled]
    · simp [hsettled]
  -- the return leads on from the opening
  have hlanded := (h.sound.at_record hd).cursor
  have hpass : saturate (r.graph.passes a d + 1) ≤ (r.record s d).graph.passes a d := by
    have hgraph := Sound.graph_record_matched hsettled henters
    have hsite : x < (r.graph.place (s.labelled d)).1.size :=
      Nat.lt_of_lt_of_le hlt (h.sound.size_le_place _)
    rw [passes_eq (hwalk.find a x hx) hlanded, cursor_record, hgraph,
      traversals_link hsite Nat.zero_lt_one, if_pos ⟨rfl, rfl⟩, Sound.traversals_place]
    refine saturate_mono (Nat.add_le_add_right ?_ 1)
    unfold passes
    split
    · rename_i y z hy hz
      have hsame := hwalk.find d z hz
      rw [hlanded, Option.some.injEq, cursor_record] at hsame
      rw [hx, Option.some.injEq] at hy
      exact Nat.le_of_eq (by rw [hy, hsame])
    · exact Nat.zero_le _
  refine ⟨⟨hwalk.misses, hwalk.noMiss, hwalk.entered, hwalk.returned, hwalk.find,
    fun o e => ?_⟩, ?_⟩
  · unfold landings
    by_cases hkey : a.pc = o.pc ∧ a.opcode = o.opcode ∧ d.pc = e.pc ∧ d.opcode = e.opcode
    · obtain ⟨h₁, h₂, h₃, h₄⟩ := hkey
      rw [passes_congr h₁ h₂ h₃ h₄, passes_congr h₁ h₂ h₃ h₄] at hpass
      simpa [h₁, h₂, h₃, h₄] using hpass
    · have hpasses := hwalk.passes o e
      simpa [landings, hkey] using hpasses
  · simp [backtrace_record, henters, hsettled, hbacktrace]

end At

/-! ## Bracketed runs -/

def retired (insts : List Instruction) : List TraceRecord := insts.map .instruction

/-- An instruction within the address space is taken. -/
theorem feed_of_lt (r : Recorder) (hb : b.pc < s.profile.beginAddress) :
    r.feed s (.instruction b) = r.record s b := by
  rw [feed_instruction, if_neg (Nat.not_le.2 hb)]

theorem feedAll_retired_cons (r : Recorder) (hb : b.pc < s.profile.beginAddress)
    (insts : List Instruction) :
    r.feedAll s (retired (b :: insts)) = (r.record s b).feedAll s (retired insts) := by
  rw [retired, List.map_cons, feedAll_cons, feed_of_lt r hb]
  rfl

/-- Runs of instructions are followed part by part. -/
theorem feedAll_retired_append (r : Recorder) (insts more : List Instruction) :
    r.feedAll s (retired (insts ++ more)) =
      (r.feedAll s (retired insts)).feedAll s (retired more) := by
  rw [retired, List.map_append, feedAll_append]
  rfl

/-- A bracketed run ends one call or interrupt for each that it begins, and leaves pending what was
pending before. -/
theorem Balanced.walk (hp : s.profile.Regular) {insts : List Instruction}
    (hbalanced : Profile.Balanced s.profile a insts bs z) :
    ∀ r, At s r a → r.interruptPending = false →
      (∀ i ∈ insts, i.pc < s.profile.beginAddress) →
      Walk r bs.length bs.length bs (r.feedAll s (retired insts)) ∧
        At s (r.feedAll s (retired insts)) z ∧
        (r.feedAll s (retired insts)).interruptPending = false ∧
        (r.feedAll s (retired insts)).backtrace = r.backtrace := by
  induction hbalanced with
  | stay a =>
    intro r hat hpending _
    exact ⟨.refl r, hat, hpending, rfl⟩
  | @plain a b z rest bs hstep _ ih =>
    intro r hat hpending hrange
    have hb : b.pc < s.profile.beginAddress := hrange b List.mem_cons_self
    obtain ⟨hwalk, hbacktrace⟩ := hat.plain hp hpending hb hstep
    obtain ⟨hrest, hlast, hlater, hkept⟩ := ih (r.record s b) (hat.sound.at_record hb) rfl
      fun i hi => hrange i (List.mem_cons_of_mem _ hi)
    rw [feedAll_retired_cons r hb]
    refine ⟨?_, hlast, hlater, hkept.trans hbacktrace⟩
    simpa using hwalk.trans hrest
  | @bracket a b c d z flow inner rest bs cs hopens _ hcloses hlanding hvector _ ihinner ihrest =>
    intro r hat hpending hrange
    have hb : b.pc < s.profile.beginAddress := hrange b List.mem_cons_self
    have hd : d.pc < s.profile.beginAddress := hrange d (by simp)
    have hinner : ∀ i ∈ inner, i.pc < s.profile.beginAddress := fun i hi => hrange i (by simp [hi])
    have hrest : ∀ i ∈ rest, i.pc < s.profile.beginAddress := fun i hi => hrange i (by simp [hi])
    obtain ⟨hopen, hpushed⟩ := hat.opens hp hpending hb hopens
    obtain ⟨hwithin, hat₁, -, hkept₁⟩ := ihinner _ (hat.sound.at_record hb) rfl hinner
    obtain ⟨hclose, hpopped⟩ := hat₁.closes hp hd hat.in_range hcloses hlanding hvector
      (hwithin.find a _ (hopen.find a _ hat.cursor)) (hkept₁.trans hpushed)
    obtain ⟨hlater, hat₂, hpending₂, hkept₂⟩ := ihrest _ (hat₁.sound.at_record hd) rfl hrest
    rw [feedAll_retired_cons r hb, feedAll_retired_append, feedAll_retired_cons _ hd]
    refine ⟨?_, hat₂, hpending₂, hkept₂.trans hpopped⟩
    have hwalk := ((hopen.trans hwithin).trans hclose).trans hlater
    have hups : 1 + bs.length + 0 + cs.length = (bs ++ (a, d) :: cs).length := by
      simp
      omega
    have hdowns : 0 + bs.length + 1 + cs.length = (bs ++ (a, d) :: cs).length := by
      simp
      omega
    rwa [hups, hdowns, List.nil_append, List.append_assoc, List.singleton_append] at hwalk

/-! ## Whole traces -/

/-- Before the first record there is no edge at all. -/
theorem noMiss_new (p : Profile) : NoMiss (Recorder.new p).graph := by
  intro a b e he
  have hnone : ((forProfile p).insert (.marker p.beginAddress "BEGIN" false)).1.edge? a b =
      (forProfile p).edge? a b := edge?_insert rfl
  change ((forProfile p).insert (.marker p.beginAddress "BEGIN" false)).1.edge? a b = _ at he
  rw [hnone, edge?, block_of_size_le (Nat.zero_le a)] at he
  simp [Block.missing] at he

/-- The first instruction of a trace is only placed. -/
theorem walk_first (s : Setup) (ha : a.pc < s.profile.beginAddress) :
    Walk (.new s.profile) 0 0 [] ((Recorder.new s.profile).record s a) ∧
      ((Recorder.new s.profile).record s a).backtrace = [] := by
  obtain ⟨hopcode, hsettled, henters⟩ := (Sound.new s).arrival_start rfl a
  have htransfer : ∀ offset, s.profile.transfer [] offset ≠ .call := by
    intro offset
    rw [ne_eq, Regular.transfer_eq_call_iff]
    exact fun hclass => nomatch hclass.1
  refine ⟨(Sound.new s).walk_record ha ?_ ?_ ?_, ?_⟩
  · simp [hsettled]
  · simp [henters, hopcode, htransfer]
  · simp [hsettled]
  · simp only [backtrace_record, henters, hsettled, hopcode, htransfer, Bool.false_eq_true,
      and_false, if_false, if_true]
    rfl

/-- What a trace leaves whose calls and restarts all return: nothing pending, no return that missed,
as many returns as calls and interrupts, and for each bracket an edge from its opening to its
landing with a traversal for every bracket between the same two blocks. Counts stay at their
limit. -/
structure Returned (R : Recording) (bs : List Bracket) : Prop where
  pending : R.tally.pendingFrames = 0
  misses : R.tally.returnMisses = 0
  noMiss : ∀ l ∈ R.graph.links, l.kind ≠ .returnMiss
  balance : R.tally.calls + R.tally.interrupts = R.tally.returns
  landed : ∀ e ∈ bs, ∃ x y edge, R.graph.find? e.1 = some x ∧ R.graph.find? e.2 = some y ∧
    R.graph.edge? x y = some edge ∧ saturate (landings e.1 e.2 bs) ≤ edge.count

/-- **Calls that return leave nothing behind.** Whatever a trace executes, if its calls and restarts
are closed like brackets by returns to right behind them, then every return finds its call. -/
theorem balanced_run_returns (s : Setup) (hp : s.profile.Regular) {insts : List Instruction}
    (hbalanced : Profile.Balanced s.profile a insts bs z)
    (hrange : ∀ i ∈ a :: insts, i.pc < s.profile.beginAddress) :
    Returned (((Recorder.new s.profile).feedAll s (retired (a :: insts))).finish s.profile) bs := by
  have ha : a.pc < s.profile.beginAddress := hrange a List.mem_cons_self
  obtain ⟨hfirst, hempty⟩ := walk_first s ha
  obtain ⟨hrest, hlast, -, hkept⟩ := Balanced.walk hp hbalanced _
    ((Sound.new s).at_record ha) rfl fun i hi => hrange i (List.mem_cons_of_mem _ hi)
  rw [← feedAll_retired_cons _ ha] at hrest hlast hkept
  have hwalk := hfirst.trans hrest
  have hsound := hlast.sound
  generalize (Recorder.new s.profile).feedAll s (retired (a :: insts)) = r at *
  refine ⟨?_, ?_, fun l hl => ?_, ?_, fun e he => ?_⟩
  · have hlength := congrArg List.length (hkept.trans hempty)
    exact hlength
  · exact hwalk.misses
  · obtain ⟨x, -, hl⟩ := List.mem_flatMap.1 hl
    obtain ⟨-, hedge⟩ := mem_linksFrom_iff.1 hl
    exact hsound.noMiss_finish (hwalk.noMiss (noMiss_new _)) _ _ _ hedge
  · have hentered := hwalk.entered
    have hreturned := hwalk.returned
    change r.tally.calls + r.tally.interrupts = r.tally.returns
    rw [hentered, hreturned]
    simp [Recorder.new]
  · -- the bracket is one of those that count for it
    have hpos : 0 < landings e.1 e.2 bs := List.countP_pos_iff.2 ⟨e, he, by simp⟩
    have hpass := hwalk.passes e.1 e.2
    rw [List.nil_append] at hpass
    have hcount : saturate (landings e.1 e.2 bs) ≤ r.graph.passes e.1 e.2 :=
      Nat.le_trans (saturate_mono (Nat.le_add_left _ _)) hpass
    have hpasses := Nat.lt_of_lt_of_le (saturate_pos hpos) hcount
    unfold passes at hpasses hcount
    split at hcount
    · rename_i x y hx hy
      have hle := Nat.le_trans hcount (hsound.traversals_le_finish x y)
      have hedge := hsound.raw_finish.mirrored.traversals_pos_iff.1
        (Nat.lt_of_lt_of_le (saturate_pos hpos) hle)
      obtain ⟨edge, hedge⟩ := Option.isSome_iff_exists.1 hedge
      rw [traversals, hedge] at hle
      exact ⟨x, y, edge, hsound.find?_finish hx, hsound.find?_finish hy, hedge, hle⟩
    · exact absurd hcount (Nat.not_le.2 (saturate_pos hpos))

/-- A function that calls itself once, and a restart behind its call. -/
theorem balanced_run_returns_recursion :
    let s : Setup := { profile := .gameBoy }
    let outer : Instruction := ⟨0x100, [0xCD], [], none⟩
    let self : Instruction := ⟨0x200, [0xC4], [], none⟩
    let leave : Instruction := ⟨0x203, [0xC9], [], none⟩
    let restart : Instruction := ⟨0x103, [0xC7], [], none⟩
    let handler : Instruction := ⟨0x0, [0xC9], [], none⟩
    let last : Instruction := ⟨0x104, [0x00], [], none⟩
    let insts := [self, self, leave, leave, restart, handler, last]
    let bs := [(self, leave), (outer, restart), (restart, last)]
    s.profile.Regular ∧ Profile.Balanced s.profile outer insts bs last ∧
      (∀ i ∈ outer :: insts, i.pc < s.profile.beginAddress) ∧
      Returned (((Recorder.new s.profile).feedAll s (retired (outer :: insts))).finish s.profile)
        bs := by
  intro s outer self leave restart handler last insts bs
  have hskip : Plain s.profile self leave := by
    refine ⟨fun flow hopens => ?_, fun hcloses => absurd hcloses.1 (by decide),
      fun hvector => absurd hvector (by decide)⟩
    cases hopens with
    | call _ htaken => exact htaken rfl
    | restart hclass _ => exact absurd hclass (by decide)
  have hopens : Opens s.profile self self .call := .call (by decide) (by decide)
  have houter : Opens s.profile outer self .call := .call (by decide) (by decide)
  have hvector : Opens s.profile restart handler .interruptEntry := .restart (by decide) (by decide)
  have hself : Profile.Balanced s.profile self [self, leave, leave] [(self, leave)] leave := by
    have hcloses : Closes s.profile leave leave := ⟨by decide, by decide⟩
    have hbracket := Profile.Balanced.bracket hopens (.plain hskip (.stay leave)) hcloses rfl
      (by decide) (.stay leave)
    exact hbracket
  have hrestart : Profile.Balanced s.profile restart [handler, last] [(restart, last)] last := by
    have hcloses : Closes s.profile handler last := ⟨by decide, by decide⟩
    have hbracket := Profile.Balanced.bracket hvector (.stay handler) hcloses rfl (by decide)
      (.stay last)
    exact hbracket
  have hbalanced : Profile.Balanced s.profile outer insts bs last := by
    have hcloses : Closes s.profile leave restart := ⟨by decide, by decide⟩
    have hbracket := Profile.Balanced.bracket houter hself hcloses rfl (by decide) hrestart
    exact hbracket
  have hrange : ∀ i ∈ outer :: insts, i.pc < s.profile.beginAddress := by decide
  exact ⟨gameBoy_regular, hbalanced, hrange,
    balanced_run_returns s gameBoy_regular hbalanced hrange⟩

end Recorder

end TraceFlow
