/-
TraceFlow.Proofs.Recorder.Backtrace — the backtrace is a stack.

Three things make it one, and `stack_discipline` states them together for
every state that is reached.

* A record pushes one frame, takes the innermost away, or does neither.
  This is `backtrace_feed`, from the module of the steps.
* What lies below the least depth of a run is the same before and after:
  `bottom_feedAll`, by induction over the run through `suffix_feedAll`.
  `bottom k` are the `k` outermost frames, and a run that stays at least
  `k` deep cannot reach them.
* A return that an interrupt comes upon before it lands settles nothing.
  `Preempted` says when a step is one: it leaves a return, does not fall
  through, and arrives on a vector while something is pending.

The third looks like an exception to the first and is none. Such a step
takes the frame that the return would end and then enters the handler from
the site of that very frame, to be resumed where the frame is
(`At.arrival_preempted`), so the frame that is pushed is the one that was
taken. `Sound.nothingSettled_of_preempted` adds that nothing is reported
and that no miss is counted.
-/
import Mathlib.Data.List.DropRight
import Mathlib.Data.List.Infix
import TraceFlow.Proofs.Recorder.Balance

namespace TraceFlow

namespace Profile

variable {p : Profile} {opcode : List UInt8}

/-- Whatever else it is, an opcode of the class of returns counts as a return. -/
theorem classify_ret (hret : p.ret.contains opcode = true) : p.classify opcode = some .ret := by
  have hfirst : (p.opcodeClass .ret).contains opcode = true := hret
  simp [classify, hfirst]

/-- A return that does not fall through enters the handler of a vector that it arrives on. -/
theorem entersHandler_ret {announced : Bool} {pc : Address} {offset : Int}
    (hvector : p.isInterruptVector pc = true) (hret : p.ret.contains opcode = true)
    (htaken : offset ≠ p.ret.offset) : p.entersHandler announced pc opcode offset = true := by
  unfold entersHandler
  rw [hvector, classify_ret hret]
  simp [htaken]

end Profile

namespace Recorder

open TraceFlow.Graph Profile

variable {s : Setup} {r : Recorder} {a i : Instruction} {f : Frame} {rest : List Frame}

/-! ## Frames that are not reached -/

/-- The outermost frames that are pending, up to `k`. -/
def bottom (k : Nat) (r : Recorder) : List Frame := r.backtrace.rtake k

theorem bottom_suffix (k : Nat) (r : Recorder) : r.bottom k <:+ r.backtrace := List.drop_suffix ..

/-- A backtrace that is deep enough has all of them. -/
theorem length_bottom {k : Nat} (hk : k ≤ r.backtrace.length) : (r.bottom k).length = k := by
  rw [bottom, List.rtake, List.length_drop]
  omega

/-- A run that stays at least as deep as `k` frames leaves the outermost `k` alone. -/
theorem bottom_feedAll (s : Setup) {k : Nat} {recs : List TraceRecord}
    (hdeep : ∀ q, q <+: recs → k ≤ (r.feedAll s q).backtrace.length) :
    (r.feedAll s recs).bottom k = r.bottom k := by
  have hlength : (r.bottom k).length = k := length_bottom (hdeep [] List.nil_prefix)
  have hsuffix : r.bottom k <:+ (r.feedAll s recs).backtrace :=
    suffix_feedAll s (bottom_suffix k r) fun q hq => hlength.symm ▸ hdeep q hq
  have hdrop := List.suffix_iff_eq_drop.1 hsuffix
  rw [hlength] at hdrop
  exact hdrop.symm

/-! ## Returns that are preempted -/

/-- The step to `i` leaves a return, does not fall through and arrives on an interrupt vector while
something is pending. In words of 64 bits a return falls through to the address behind it. -/
structure Preempted (s : Setup) (r : Recorder) (i : Instruction) : Prop where
  in_range : i.pc < s.profile.beginAddress
  vector : s.profile.isInterruptVector i.pc = true
  ret : s.profile.ret.contains (r.graph.block r.cursor).lastOpcode = true
  taken : i.pc ≠ ((r.graph.block r.cursor).pc + s.profile.ret.size) % wordSize 64
  pending : r.backtrace ≠ []

/-- A preempted return is matched and enters the handler at once. -/
theorem At.arrival_preempted (h : At s r a) (hi : Preempted s r i)
    (hbacktrace : r.backtrace = f :: rest) :
    (arrival s r i).settled = .matched f ∧ (arrival s r i).enters = true := by
  have hret := hi.ret
  have htaken := hi.taken
  rw [h.lastOpcode_cursor] at hret
  rw [h.pc_cursor, ne_eq, ← displacement_eq_offset_iff_word hi.in_range] at htaken
  have hreturns : s.profile.returns a.opcode (displacement a.pc i.pc) = true := by
    rw [Profile.returns, hret, Bool.true_and, bne_iff_ne]
    exact htaken
  have hbelongs : belongs s.profile r.graph i.pc f = true := by
    unfold belongs
    split
    · rfl
    · rw [hi.vector, Bool.or_true]
  rw [h.arrival_eq]
  refine ⟨?_, entersHandler_ret hi.vector hret htaken⟩
  simp only [hreturns, if_true, hbacktrace, settle, hbelongs]

/-- What is pending, what was reported and what was counted as a miss is the same in both states. -/
structure NothingSettled (r r' : Recorder) : Prop where
  backtrace : r'.backtrace = r.backtrace
  diagnostics : r'.diagnostics = r.diagnostics
  returnMisses : r'.tally.returnMisses = r.tally.returnMisses

/-- A return that is preempted still owes its landing. -/
theorem Sound.nothingSettled_of_preempted (h : Sound s r) (hi : Preempted s r i) :
    NothingSettled r (r.feed s (.instruction i)) := by
  obtain ⟨a, hat⟩ := h.at_cursor hi.ret
  obtain ⟨f, rest, hbacktrace⟩ := List.exists_cons_of_ne_nil hi.pending
  obtain ⟨hsettled, henters⟩ := hat.arrival_preempted hi hbacktrace
  rw [feed_of_lt r hi.in_range]
  refine ⟨?_, ?_, ?_⟩
  · rw [backtrace_record]
    simp [henters, hsettled, Arrival.origin, Arrival.resume, hbacktrace]
  · rw [record_eq_move, diagnostics_move, settleReturn, hsettled]
    rfl
  · rw [record_eq_move, tally_move, hsettled]
    rfl

/-! ## Every record and every run -/

/-- **The backtrace is a stack.** A record leaves it as it is, pushes one frame or takes the
innermost away. A return that is preempted leaves it as it is and misses nothing. A run that never
gets below a depth leaves the frames up to there alone. -/
theorem stack_discipline (h : Reached s r) :
    (∀ rec, (r.feed s rec).backtrace = r.backtrace ∨
      (∃ f, (r.feed s rec).backtrace = f :: r.backtrace) ∨
      ∃ f, r.backtrace = f :: (r.feed s rec).backtrace) ∧
    (∀ i, Preempted s r i → NothingSettled r (r.feed s (.instruction i))) ∧
    ∀ k recs, (∀ q, q <+: recs → k ≤ (r.feedAll s q).backtrace.length) →
      (r.feedAll s recs).bottom k = r.bottom k := by
  refine ⟨fun rec => ?_, fun i hi => h.sound.nothingSettled_of_preempted hi,
    fun k recs hdeep => bottom_feedAll s hdeep⟩
  rcases backtrace_feed s r rec with hsame | hpush | hpop
  · exact .inl hsame
  · exact .inr (.inl hpush)
  · -- nothing can be taken from an empty backtrace
    cases hbacktrace : r.backtrace with
    | nil => exact .inl (by rw [hpop, hbacktrace, List.tail_nil])
    | cons f rest => exact .inr (.inr ⟨f, by rw [hpop, hbacktrace, List.tail_cons]⟩)

/-- A call whose callee returns into an interrupt: the frame of the call is pending before, behind
and within the handler, which calls in turn. -/
theorem stack_discipline_preempted :
    let s : Setup := { profile := .gameBoy }
    let call : Instruction := ⟨0x100, [0xCD], [], none⟩
    let leave : Instruction := ⟨0x200, [0xC9], [], none⟩
    let handler : Instruction := ⟨0x40, [0xCD], [], none⟩
    let r := (Recorder.new s.profile).feedAll s (retired [call, leave])
    Reached s r ∧ Preempted s r handler ∧
      NothingSettled r (r.feed s (.instruction handler)) ∧
      r.backtrace = [⟨1, .past 3⟩] ∧
      (r.feedAll s (retired [handler, leave])).backtrace.length = 2 ∧
      (r.feedAll s (retired [handler, leave])).bottom 1 = r.bottom 1 := by
  intro s call leave handler r
  have hreached : Reached s r := Reached.new.feedAll _
  have hpreempted : Preempted s r handler := by
    refine ⟨by decide, by decide, by decide +kernel, by decide +kernel, by decide +kernel⟩
  obtain ⟨-, hkept, hbottom⟩ := stack_discipline hreached
  refine ⟨hreached, hpreempted, hkept handler hpreempted, by decide +kernel, by decide +kernel,
    hbottom 1 _ fun q hq => ?_⟩
  have hdeep : ∀ q ∈ (retired [handler, leave]).inits, 1 ≤ (r.feedAll s q).backtrace.length := by
    decide +kernel
  exact hdeep q ((List.mem_inits q _).2 hq)

end Recorder

end TraceFlow
