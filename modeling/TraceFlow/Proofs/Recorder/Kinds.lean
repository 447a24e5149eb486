/-
TraceFlow.Proofs.Recorder.Kinds — what the kind of an edge tells.

The recorder marks an edge when a step passes it, and an edge may be passed
many times, by steps that it judges differently. The module shows that no
harm comes of it: whatever marks an edge could have marked it at every
other time as well, because a mark depends on the two ends alone.

* `Profile.Marks` says by which kinds a step of some opcode and
  displacement may mark its edge. There is one at most (`Marks.unique`),
  and none for an edge that is normal.
* `Pass` is one more traversal, marked by a kind that its ends allow.
  `Sound.exists_pass_record` shows that every step that enters no handler
  is one; this is where the branches of the step are split, by the
  settlement and then by the class of the opcode.
* `Kinded` is the invariant: marks are those that the ends allow, and a
  block is noted as taken exactly when a taken edge or a call leaves it.
  `Pass.kinded` and `Kinded.grown` keep it, over a traversal and over a
  change that adds no edge. `Pass.kindsStay` is where uniqueness is used:
  an edge that is marked is marked again by the same kind.
* `Sound.kinded_record` is the step, `Reached.kinded` and
  `Sound.kindsStay_feedAll` the runs, by induction on the records.

`edge_kinds_tell` says the same in addresses and sizes, as a reader of a
graph does. For that the classes of the CPU have to be apart, or a kind
could stand for two of them; `Profile.Regular` says so. A second target of
a branch that was already found taken stays normal, so nothing is claimed
of where a normal edge leads.
-/
import TraceFlow.Proofs.Graph.Kinds
import TraceFlow.Proofs.Recorder.Balance

namespace TraceFlow

/-! ## Marks that a step allows -/

namespace Profile

variable {p : Profile} {opcode : List UInt8} {offset : Int} {k k' : LinkKind}

/-- Whether a step that leaves `opcode` by a displacement may mark its edge by a kind. To be normal
is no mark. -/
def Marks (p : Profile) (opcode : List UInt8) (offset : Int) : LinkKind → Prop
  | .normal => False
  | .returnMiss => p.returns opcode offset = true
  | .callTaken => p.returns opcode offset = false ∧ p.transfer opcode offset = .call
  | .notTaken => p.returns opcode offset = false ∧ p.transfer opcode offset = .notTaken
  | .taken => p.returns opcode offset = false ∧ p.transfer opcode offset = .branch

/-- A step allows no two marks. -/
theorem Marks.unique (h : p.Marks opcode offset k) (h' : p.Marks opcode offset k') : k = k' := by
  cases k <;> cases k' <;> simp_all [Marks]

/-- A step that falls through leaves a call, a jump or a relative jump. -/
theorem exists_of_transfer_notTaken (h : p.transfer opcode offset = .notTaken) :
    ∃ flow, (flow = .call ∨ flow = .jump ∨ flow = .jr) ∧
      (p.opcodeClass flow).contains opcode = true ∧ offset = (p.opcodeClass flow).offset := by
  unfold transfer at h
  split at h
  · rename_i hclass
    split at h
    · exact ⟨.call, .inl rfl, hclass, ‹_›⟩
    · cases h
  · split at h
    · rename_i hclass
      split at h
      · exact ⟨.jump, .inr (.inl rfl), hclass, ‹_›⟩
      · cases h
    · split at h
      · rename_i hclass
        split at h
        · exact ⟨.jr, .inr (.inr rfl), hclass, ‹_›⟩
        · cases h
      · cases h

/-- A branch that is taken leaves a jump or a relative jump. -/
theorem exists_of_transfer_branch (h : p.transfer opcode offset = .branch) :
    ∃ flow, (flow = .jump ∨ flow = .jr) ∧
      (p.opcodeClass flow).contains opcode = true ∧ offset ≠ (p.opcodeClass flow).offset := by
  unfold transfer at h
  split at h
  · split at h <;> cases h
  · split at h
    · rename_i hclass
      split at h
      · cases h
      · exact ⟨.jump, .inl rfl, hclass, ‹_›⟩
    · split at h
      · rename_i hclass
        split at h
        · cases h
        · exact ⟨.jr, .inr rfl, hclass, ‹_›⟩
      · cases h

end Profile

namespace Graph

variable {p : Profile} {g g' g₁ : Graph} {a b x y id : BlockId} {kind : Option LinkKind}
  {k : LinkKind}

/-- Whether an edge between two blocks may be marked by a kind. -/
def Marks (g : Graph) (p : Profile) (a b : BlockId) (k : LinkKind) : Prop :=
  p.Marks (g.block a).lastOpcode (displacement (g.block a).pc (g.block b).pc) k

/-- What an edge may be marked by depends on what is fixed of its ends. -/
theorem Marks.congr (h : g.Marks p a b k) (ha : (g'.block a).fixed = (g.block a).fixed)
    (hb : (g'.block b).fixed = (g.block b).fixed) : g'.Marks p a b k := by
  unfold Marks
  rwa [Block.lastOpcode_of_fixed ha, Block.pc_of_fixed ha, Block.pc_of_fixed hb]

structure Kinded (p : Profile) (g : Graph) : Prop where
  marks : ∀ {a b k}, g.edgeKind? a b = some k → k ≠ .normal → g.Marks p a b k
  found : ∀ {a b k}, g.edgeKind? a b = some k → k = .callTaken ∨ k = .taken →
    (g.block a).takenFound = true
  called : ∀ {a b}, g.edgeKind? a b = some .callTaken → (g.block b).kind.isFunctionEntry = true
  left : ∀ {a}, (g.block a).takenFound = true →
    ∃ b, g.edgeKind? a b = some .callTaken ∨ g.edgeKind? a b = some .taken
  single : ∀ {a b c}, g.edgeKind? a b = some .taken → g.edgeKind? a c = some .taken → b = c

/-- The second graph has the marked edges of the first, by the same kinds. -/
def KindsStay (g g' : Graph) : Prop :=
  ∀ a b k, k ≠ .normal → g.edgeKind? a b = some k → g'.edgeKind? a b = some k

theorem KindsStay.refl (g : Graph) : KindsStay g g := fun _ _ _ _ h => h

/-- Marks that stay over two runs stay over both. -/
theorem KindsStay.trans (h : KindsStay g g₁) (h' : KindsStay g₁ g') : KindsStay g g' :=
  fun a b k hk hab => h' a b k hk (h a b k hk hab)

theorem KindsStay.of_edge? (h : ∀ a b, g'.edge? a b = g.edge? a b) : KindsStay g g' :=
  fun a b _ _ hab => (edgeKind?_congr (h a b)).trans hab

/-! ## No more edges -/

/-- The second graph has the edges of the first, and may have more blocks; a block that began a
function still does. -/
structure Grown (g g' : Graph) : Prop where
  edge? : ∀ a b, g'.edge? a b = g.edge? a b
  fixed : ∀ {id}, id < g.size → (g'.block id).fixed = (g.block id).fixed
  found : ∀ {id}, id < g.size → (g'.block id).takenFound = (g.block id).takenFound
  entry : ∀ {id}, id < g.size → (g.block id).kind.isFunctionEntry = true →
    (g'.block id).kind.isFunctionEntry = true
  fresh : ∀ {id}, g.size ≤ id → (g'.block id).takenFound = false

/-- A change that adds no edge keeps the kinds in order. -/
theorem Kinded.grown (h : Kinded p g) (hm : Mirrored g) (hg : Grown g g') : Kinded p g' := by
  have hkind : ∀ a b, g'.edgeKind? a b = g.edgeKind? a b := fun a b =>
    edgeKind?_congr (hg.edge? a b)
  refine ⟨fun {a b k} hab hk => ?_, fun {a b k} hab hk => ?_, fun {a b} hab => ?_,
    fun {a} ha => ?_, fun {a b c} hab hac => ?_⟩
  · rw [hkind] at hab
    exact (h.marks hab hk).congr (hg.fixed (lt_size_of_edgeKind? hab))
      (hg.fixed (hm.lt_size_of_edgeKind? hab))
  · rw [hkind] at hab
    rw [hg.found (lt_size_of_edgeKind? hab)]
    exact h.found hab hk
  · rw [hkind] at hab
    exact hg.entry (hm.lt_size_of_edgeKind? hab) (h.called hab)
  · rcases Nat.lt_or_ge a g.size with hlt | hge
    · simp only [hkind]
      exact h.left ((hg.found hlt).symm.trans ha)
    · rw [hg.fresh hge] at ha
      cases ha
  · rw [hkind] at hab hac
    exact h.single hab hac

/-- A block that becomes a handler is one such change. -/
theorem Grown.handler (g : Graph) (id : BlockId) :
    Grown g (g.modify id fun b => { b with kind := .handler }) := by
  refine ⟨fun a b => edge?_modify fun _ => rfl, fun {j} _ => ?_, fun {j} _ => ?_,
    fun {j} _ hkind => ?_, fun {j} hj => ?_⟩
  · rw [block_modify]
    split <;> rfl
  · rw [block_modify]
    split <;> rfl
  · rw [block_modify]
    split
    · rfl
    · exact hkind
  · rw [block_of_size_le (by rwa [size_modify])]
    rfl

/-- The block of an instruction is another. -/
theorem Catalogued.grown_place (h : Catalogued g) (inst : Instruction) :
    Grown g (g.place inst).1 := by
  refine ⟨edge?_place g inst, fun {id} hid => ?_, fun {id} hid => ?_, fun {id} hid hkind => ?_,
    fun {id} hid => ?_⟩
  · obtain ⟨ordinal, hblock⟩ := h.block_place inst hid
    rw [hblock]
    rfl
  · obtain ⟨ordinal, hblock⟩ := h.block_place inst hid
    rw [hblock]
  · obtain ⟨ordinal, hblock⟩ := h.block_place inst hid
    rw [hblock]
    exact hkind
  · rcases h.size_place inst with ⟨hsize, -⟩ | ⟨hsize, hnew⟩
    · rw [block_of_size_le (hsize ▸ hid)]
      rfl
    · rcases Nat.eq_or_lt_of_le hid with rfl | hlt
      · obtain ⟨ordinal, hblock⟩ := h.block_place_new hnew
        rw [hblock]
        rfl
      · rw [block_of_size_le (hsize ▸ hlt)]
        rfl

theorem Grown.insert (g : Graph) {new : Block} (hout : new.out = ∅)
    (hfound : new.takenFound = false) : Grown g (g.insert new).1 := by
  have hold : ∀ {id}, id < g.size → (g.insert new).1.block id = g.block id := fun hid => by
    rw [block_insert, if_neg (Nat.ne_of_lt hid)]
  refine ⟨fun a b => edge?_insert hout, fun hid => by rw [hold hid], fun hid => by rw [hold hid],
    fun hid hkind => by rwa [hold hid], fun {id} hid => ?_⟩
  rw [block_insert]
  split
  · exact hfound
  · rw [block_of_size_le hid]
    rfl

/-! ## One more traversal -/

/-- The second graph is the first after one more traversal from `x` to `y`. If it marks the edge,
the two blocks allow the mark; a call makes its target begin a function, and a taken branch is the
first of its source. -/
structure Pass (p : Profile) (x y : BlockId) (kind : Option LinkKind) (g g' : Graph) : Prop where
  fixed : ∀ id, (g'.block id).fixed = (g.block id).fixed
  entry : ∀ {id}, (g.block id).kind.isFunctionEntry = true →
    (g'.block id).kind.isFunctionEntry = true
  edge : ∀ a b, g'.edgeKind? a b =
    if a = x ∧ b = y then some (kind.getD ((g.edgeKind? x y).getD .normal)) else g.edgeKind? a b
  found : ∀ id, (g'.block id).takenFound = true ↔
    (g.block id).takenFound = true ∨ id = x ∧ (kind = some .callTaken ∨ kind = some .taken)
  marks : ∀ k, kind = some k → g.Marks p x y k
  called : kind = some .callTaken → (g'.block y).kind.isFunctionEntry = true
  first : kind = some .taken → (g.block x).takenFound = false

/-- Linking is a pass when what comes before it leaves the edges alone. -/
theorem Pass.of_link (hx : x < g.size) (hsame : SameEdges g g₁)
    (hfixed : ∀ id, (g₁.block id).fixed = (g.block id).fixed)
    (hentry : ∀ {id}, (g.block id).kind.isFunctionEntry = true →
      (g₁.block id).kind.isFunctionEntry = true)
    (hfound : ∀ id, (g₁.block id).takenFound = true ↔
      (g.block id).takenFound = true ∨ id = x ∧ (kind = some .callTaken ∨ kind = some .taken))
    (hmarks : ∀ k, kind = some k → g.Marks p x y k)
    (hcalled : kind = some .callTaken → (g₁.block y).kind.isFunctionEntry = true)
    (hfirst : kind = some .taken → (g.block x).takenFound = false) :
    Pass p x y kind g (g₁.link x y kind 1) := by
  have hbody : ∀ id, ((g₁.link x y kind 1).block id).body = (g₁.block id).body := fun _ => body_link
  refine ⟨fun id => (Block.fixed_of_body (hbody id)).trans (hfixed id), fun {id} hkind => ?_,
    fun a b => ?_, fun id => ?_, hmarks, fun hcall => ?_, hfirst⟩
  · rw [kind_link]
    exact hentry hkind
  · rw [edgeKind?_link (by rwa [hsame.size]) Nat.zero_lt_one, edgeKind?_congr (hsame.edge? x y),
      edgeKind?_congr (hsame.edge? a b)]
  · rw [Block.takenFound_of_body (hbody id)]
    exact hfound id
  · rw [kind_link]
    exact hcalled hcall

namespace Pass

variable (hpass : Pass p x y kind g g')

include hpass

/-- An edge that is marked after a pass was so before, or is the one that was passed. -/
theorem edge_or (hab : g'.edgeKind? a b = some k) (hk : k ≠ .normal) :
    g.edgeKind? a b = some k ∨ a = x ∧ b = y ∧ kind = some k := by
  rw [hpass.edge] at hab
  split at hab
  · rename_i hends
    cases kind with
    | some marked => exact .inr ⟨hends.1, hends.2, hab⟩
    | none =>
      rw [hends.1, hends.2]
      cases hold : g.edgeKind? x y with
      | some old => exact .inl (by simpa [hold] using hab)
      | none => exact absurd (by simpa [hold] using hab.symm) hk
  · exact .inl hab

/-- A pass leaves every mark as it is. -/
theorem kindsStay (h : Kinded p g) : KindsStay g g' := by
  intro a b k hk hab
  rw [hpass.edge]
  split
  · rename_i hends
    rw [hends.1, hends.2] at hab
    rw [hab]
    cases hkind : kind with
    | none => rfl
    | some marked =>
      have hsame : marked = k := (hpass.marks marked hkind).unique (h.marks hab hk)
      rw [hsame]
      rfl
  · exact hab

/-- One more traversal keeps the kinds in order. -/
theorem kinded (h : Kinded p g) : Kinded p g' := by
  have hstay := hpass.kindsStay h
  refine ⟨fun {a b k} hab hk => ?_, fun {a b k} hab hk => ?_, fun {a b} hab => ?_,
    fun {a} ha => ?_, fun {a b c} hab hac => ?_⟩
  · refine Marks.congr ?_ (hpass.fixed a) (hpass.fixed b)
    rcases hpass.edge_or hab hk with hold | ⟨rfl, rfl, hkind⟩
    · exact h.marks hold hk
    · exact hpass.marks k hkind
  · rw [hpass.found]
    have hne : k ≠ .normal := by
      rintro rfl
      simp at hk
    rcases hpass.edge_or hab hne with hold | ⟨rfl, rfl, hkind⟩
    · exact .inl (h.found hold hk)
    · exact .inr ⟨rfl, hk.imp (hkind.trans <| congrArg some ·) (hkind.trans <| congrArg some ·)⟩
  · rcases hpass.edge_or hab (by simp) with hold | ⟨rfl, rfl, hkind⟩
    · exact hpass.entry (h.called hold)
    · exact hpass.called hkind
  · rcases (hpass.found a).1 ha with hold | ⟨rfl, hkind⟩
    · obtain ⟨b, hb⟩ := h.left hold
      exact ⟨b, hb.imp (hstay a b _ (by simp)) (hstay a b _ (by simp))⟩
    · refine ⟨y, ?_⟩
      rw [hpass.edge, if_pos ⟨rfl, rfl⟩]
      rcases hkind with rfl | rfl
      · exact .inl rfl
      · exact .inr rfl
  · -- a second taken edge would have been found when the first one was
    have hfirst : ∀ {c}, kind = some .taken → g.edgeKind? x c ≠ some .taken := by
      intro c hkind hold
      have hfound := h.found hold (.inr rfl)
      rw [hpass.first hkind] at hfound
      cases hfound
    rcases hpass.edge_or hab (by simp) with hb | ⟨ha, hb, hkind⟩ <;>
      rcases hpass.edge_or hac (by simp) with hc | ⟨ha', hc, hkind'⟩
    · exact h.single hb hc
    · exact absurd (ha' ▸ hb) (hfirst hkind')
    · exact absurd (ha ▸ hc) (hfirst hkind)
    · exact hb.trans hc.symm

end Pass

end Graph

namespace Recorder

open TraceFlow.Graph

variable {s : Setup} {r : Recorder} {i : Instruction} {a b : BlockId}

/-! ## One instruction -/

/-- To settle a return always has a result. -/
theorem settle_ne_none (p : Profile) (g : Graph) (pc : Address) (backtrace : List Frame) :
    settle p g pc backtrace ≠ .none := by
  unfold settle
  split
  · simp
  · split <;> simp

/-- A step ends a call or misses one exactly when it is a return that was taken. -/
theorem settled_arrive (p : Profile) (r : Recorder) (target : BlockId) (pc : Address) :
    (arrive p r target pc).settled = .none ↔
      p.returns (arrive p r target pc).opcode (arrive p r target pc).offset = false := by
  unfold arrive
  simp only
  split
  · rename_i hreturns
    simp [hreturns, settle_ne_none]
  · rename_i hreturns
    simpa using hreturns

/-- Besides the block itself, no block is noted as taken. -/
theorem found_foundTaken {g : Graph} {x id : BlockId} (hx : x < g.size) :
    ((foundTaken g x).block id).takenFound = true ↔ (g.block id).takenFound = true ∨ id = x := by
  rw [foundTaken, block_modify]
  by_cases hid : id = x
  · subst hid
    simp [hx]
  · rw [if_neg fun h => hid h.1.symm]
    simp [hid]

theorem takenFound_called (b : Block) : (called b).takenFound = b.takenFound := by
  unfold called
  split <;> rfl

section

variable {p : Profile} {g : Graph} {x y : BlockId} {kind : Option LinkKind}

/-- A traversal that is not marked as taken changes nothing but its edge. -/
theorem pass_plain (hx : x < g.size) (hcall : kind ≠ some .callTaken) (htaken : kind ≠ some .taken)
    (hmarks : ∀ k, kind = some k → g.Marks p x y k) : Pass p x y kind g (g.link x y kind 1) :=
  .of_link hx (.refl g) (fun _ => rfl) id (fun _ => by simp [hcall, htaken]) hmarks
    (fun heq => absurd heq hcall) fun heq => absurd heq htaken

/-- A branch that is taken for the first time notes that at its block. -/
theorem pass_branch (hx : x < g.size) (hmarks : g.Marks p x y .taken)
    (hfirst : (g.block x).takenFound = false) :
    Pass p x y (some .taken) g ((foundTaken g x).link x y (some .taken) 1) := by
  refine .of_link hx (sameEdges_marked true g x) (fun id => ?_) (fun {id} hid => ?_)
    (fun id => ?_) ?_ (by simp) fun _ => hfirst
  · exact Block.fixed_of_content content_foundTaken
  · exact kind_foundTaken (g := g) ▸ hid
  · rw [found_foundTaken hx]
    simp
  · rintro k ⟨⟩
    exact hmarks

/-- A call notes it as well, and its target becomes a function. -/
theorem pass_call (hx : x < g.size) (hy : y < g.size) (hmarks : g.Marks p x y .callTaken) :
    Pass p x y (some .callTaken) g
      ((foundTaken (g.modify y called) x).link x y (some .callTaken) 1) := by
  refine .of_link hx (sameEdges_called g x y) (fun id => ?_) (fun {id} hid => ?_) (fun id => ?_) ?_
    (fun _ => ?_) (by simp)
  · exact Block.fixed_of_content (content_foundTaken.trans (content_modify content_called))
  · rw [kind_foundTaken, block_modify]
    split
    · exact isFunctionEntry_called _
    · exact hid
  · rw [found_foundTaken (by rwa [size_modify]), block_modify]
    split <;> simp [takenFound_called]
  · rintro k ⟨⟩
    exact hmarks
  · rw [kind_foundTaken, block_modify, if_pos ⟨rfl, hy⟩]
    exact isFunctionEntry_called _

end

namespace Sound

/-- A step that enters no handler passes one edge. -/
theorem exists_pass_record (h : Sound s r) (henters : (arrival s r i).enters = false) :
    ∃ x kind, Pass s.profile x (r.graph.place (s.labelled i)).2 kind
      (r.graph.place (s.labelled i)).1 (r.record s i).graph := by
  have hle := h.size_le_place (s.labelled i)
  have hcursor := Nat.lt_of_lt_of_le h.cursor_lt hle
  have htarget := h.target_lt i
  have hpc := h.pc_target i
  have hsettled : (arrival s r i).settled = .none ↔
      s.profile.returns (arrival s r i).opcode (arrival s r i).offset = false :=
    settled_arrive ..
  -- the marks that the ends of the step allow are those of its judgement
  have hmarks : ∀ {k}, s.profile.Marks (arrival s r i).opcode (arrival s r i).offset k →
      (r.graph.place (s.labelled i)).1.Marks s.profile r.cursor
        (r.graph.place (s.labelled i)).2 k := by
    intro k hk
    unfold Graph.Marks
    rw [hpc]
    exact hk
  cases hjudged : (arrival s r i).settled with
  | matched f =>
    have horigin := h.origin_lt i (r.graph.place (s.labelled i)).2 i.pc
    change (arrival s r i).origin r.cursor < r.graph.size at horigin
    rw [Arrival.origin, hjudged] at horigin
    rw [graph_record_matched hjudged henters]
    exact ⟨f.site, none, pass_plain (Nat.lt_of_lt_of_le horigin hle) (by simp) (by simp) (by simp)⟩
  | missed =>
    have hreturns := Bool.not_eq_false _ ▸ (not_congr hsettled).1 (by simp [hjudged])
    rw [graph_record_missed hjudged henters]
    refine ⟨r.cursor, some .returnMiss, pass_plain hcursor (by simp) (by simp) ?_⟩
    rintro k ⟨⟩
    exact hmarks hreturns
  | none =>
    have hreturns := hsettled.1 hjudged
    rw [graph_record_follow hjudged henters]
    unfold follow
    simp only
    split
    · rename_i htransfer
      refine ⟨r.cursor, some .notTaken, pass_plain hcursor (by simp) (by simp) ?_⟩
      rintro k ⟨⟩
      exact hmarks ⟨hreturns, htransfer⟩
    · rename_i htransfer
      exact ⟨r.cursor, some .callTaken, pass_call hcursor htarget (hmarks ⟨hreturns, htransfer⟩)⟩
    · rename_i htransfer
      split
      · exact ⟨r.cursor, none, pass_plain hcursor (by simp) (by simp) (by simp)⟩
      · rename_i hfirst
        exact ⟨r.cursor, some .taken,
          pass_branch hcursor (hmarks ⟨hreturns, htransfer⟩) (Bool.eq_false_iff.2 hfirst)⟩
    · exact ⟨r.cursor, none, pass_plain hcursor (by simp) (by simp) (by simp)⟩

/-- A step keeps what edges and marks say of each other, and every mark. -/
theorem kinded_record (h : Sound s r) (hk : Kinded s.profile r.graph) :
    Kinded s.profile (r.record s i).graph ∧ KindsStay r.graph (r.record s i).graph := by
  have hgrown := h.catalogued.grown_place (s.labelled i)
  have hplaced := hk.grown h.mirrored hgrown
  have hmirrored := h.mirrored.place (s.labelled i)
  cases henters : (arrival s r i).enters with
  | true =>
    rw [graph_record_enters henters]
    have hhandler := Grown.handler (r.graph.place (s.labelled i)).1
      (r.graph.place (s.labelled i)).2
    refine ⟨hplaced.grown hmirrored hhandler, .of_edge? fun a b => ?_⟩
    rw [hhandler.edge?, hgrown.edge?]
  | false =>
    obtain ⟨x, kind, hpass⟩ := h.exists_pass_record henters
    exact ⟨hpass.kinded hplaced, (KindsStay.of_edge? hgrown.edge?).trans (hpass.kindsStay hplaced)⟩

/-! ## Every state -/

/-- A record keeps the kinds in order, and all marks that there are. -/
theorem kinded_feed (h : Sound s r) (hk : Kinded s.profile r.graph) (rec : TraceRecord) :
    Kinded s.profile (r.feed s rec).graph ∧ KindsStay r.graph (r.feed s rec).graph := by
  cases rec with
  | interrupt id => exact ⟨hk, .refl _⟩
  | instruction i =>
    rw [feed_instruction]
    split
    · exact ⟨hk, .refl _⟩
    · exact h.kinded_record hk

/-- Over a run no mark is lost: by induction on the records. -/
theorem kindsStay_feedAll (h : Sound s r) (hk : Kinded s.profile r.graph)
    (recs : List TraceRecord) : KindsStay r.graph (r.feedAll s recs).graph := by
  induction recs generalizing r with
  | nil => exact .refl _
  | cons rec recs ih =>
    obtain ⟨hnext, hstay⟩ := h.kinded_feed hk rec
    exact hstay.trans (ih (h.feed rec) hnext)

/-- The last edge of a trace is not marked. -/
theorem kinded_finish (h : Sound s r) (hk : Kinded s.profile r.graph) :
    Kinded s.profile (r.finish s.profile).graph ∧
      KindsStay r.graph (r.finish s.profile).graph := by
  have hgrown : Grown r.graph (r.graph.insert (endMarker s.profile)).1 := .insert _ rfl rfl
  have hinserted := hk.grown h.mirrored hgrown
  have hpass : Pass s.profile r.cursor r.graph.size none (r.graph.insert (endMarker s.profile)).1
      (r.finish s.profile).graph := by
    rw [graph_finish]
    exact .of_link (h.cursor_lt_insert _) (.refl _) (fun _ => rfl) id (fun _ => by simp)
      (fun _ heq => nomatch heq) (fun heq => nomatch heq) fun heq => nomatch heq
  exact ⟨hpass.kinded hinserted,
    (KindsStay.of_edge? hgrown.edge?).trans (hpass.kindsStay hinserted)⟩

end Sound

/-- The kinds are in order in every state that is reached. -/
theorem Reached.kinded (h : Reached s r) : Kinded s.profile r.graph := by
  induction h with
  | new =>
    have hempty : Kinded s.profile (forProfile s.profile) := by
      have hnone : ∀ a b, (forProfile s.profile).edgeKind? a b = none := fun a b => by
        rw [edgeKind?, edge?, block_of_size_le (Nat.zero_le a)]
        rfl
      refine ⟨fun hab => ?_, fun hab => ?_, fun hab => ?_, fun {a} ha => ?_, fun hab => ?_⟩
      · exact absurd ((hnone _ _).symm.trans hab) (by simp)
      · exact absurd ((hnone _ _).symm.trans hab) (by simp)
      · exact absurd ((hnone _ _).symm.trans hab) (by simp)
      · rw [block_of_size_le (Nat.zero_le a)] at ha
        cases ha
      · exact absurd ((hnone _ _).symm.trans hab) (by simp)
    exact hempty.grown (.new _) (.insert _ rfl rfl)
  | feed h rec ih => exact (h.sound.kinded_feed ih rec).1
  | @feedLine r h line ih =>
    unfold Recorder.feedLine
    split
    · exact (h.sound.countLine.kinded_feed ih _).1
    · exact ih

/-! ## In addresses and sizes -/

end Recorder

namespace Graph

variable {p : Profile} {g : Graph} {a b : BlockId} {k : LinkKind}

/-- How far the block `b` stands behind the block `a`. -/
def stride (g : Graph) (a b : BlockId) : Int := ((g.block b).pc : Int) - (g.block a).pc

def EndsIn (g : Graph) (p : Profile) (a : BlockId) (flow : Flow) : Prop :=
  (p.opcodeClass flow).contains (g.block a).lastOpcode = true

/-- What the kinds of the edges tell of a graph, in addresses and sizes of instructions. -/
structure KindsTell (p : Profile) (g : Graph) : Prop where
  returnMiss : ∀ {a b}, g.edgeKind? a b = some .returnMiss →
    g.EndsIn p a .ret ∧ g.stride a b ≠ p.ret.size
  callTaken : ∀ {a b}, g.edgeKind? a b = some .callTaken →
    g.EndsIn p a .call ∧ g.stride a b ≠ p.call.size ∧
      ((g.block b).kind = .subroutine ∨ (g.block b).kind = .handler) ∧
      (g.block a).takenFound = true
  notTaken : ∀ {a b}, g.edgeKind? a b = some .notTaken →
    ∃ flow, (flow = .call ∨ flow = .jump ∨ flow = .jr) ∧ g.EndsIn p a flow ∧
      g.stride a b = (p.opcodeClass flow).size
  taken : ∀ {a b}, g.edgeKind? a b = some .taken →
    (∃ flow, (flow = .jump ∨ flow = .jr) ∧ g.EndsIn p a flow ∧
      g.stride a b ≠ (p.opcodeClass flow).size) ∧ (g.block a).takenFound = true
  branch : ∀ {a flow}, flow = .jump ∨ flow = .jr → g.EndsIn p a flow →
    if (g.block a).takenFound then ∃! b, g.edgeKind? a b = some .taken
    else ∀ b, g.edgeKind? a b ≠ some .taken

/-- Addresses that are no further than the block after a trace leave displacements to be plain
differences. -/
theorem Kinded.kindsTell (h : Kinded p g) (hp : p.Regular)
    (hpc : ∀ id, (g.block id).pc ≤ p.beginAddress + 1) : KindsTell p g := by
  have hword : ∀ id, (g.block id).pc < wordSize 63 := by
    intro id
    have hone : 1 < wordSize 62 := by decide
    calc (g.block id).pc ≤ p.beginAddress + 1 := hpc id
      _ ≤ wordSize 62 + 1 := Nat.succ_le_succ hp.beginAddress_le
      _ < wordSize 62 + wordSize 62 := Nat.add_lt_add_left hone _
      _ = wordSize 63 := (Nat.two_mul _).symm.trans (wordSize_succ 62).symm
  have hoffset : ∀ a b flow, displacement (g.block a).pc (g.block b).pc =
      (p.opcodeClass flow).offset ↔ g.stride a b = (p.opcodeClass flow).size := by
    intro a b flow
    rw [displacement_eq (hword a) (hword b), hp.offset_eq]
    rfl
  refine ⟨fun {a b} hab => ?_, fun {a b} hab => ?_, fun {a b} hab => ?_, fun {a b} hab => ?_,
    fun {a flow} hflow hclass => ?_⟩
  · have hreturns : p.returns _ _ = true := h.marks hab (by simp)
    unfold Profile.returns at hreturns
    rw [Bool.and_eq_true, bne_iff_ne] at hreturns
    exact ⟨hreturns.1, (not_congr (hoffset a b .ret)).1 hreturns.2⟩
  · obtain ⟨-, htransfer⟩ := h.marks hab (by simp)
    obtain ⟨hclass, hne⟩ := Profile.Regular.transfer_eq_call_iff.1 htransfer
    refine ⟨hclass, (not_congr (hoffset a b .call)).1 hne, ?_, h.found hab (.inl rfl)⟩
    have hentry := h.called hab
    cases hkind : (g.block b).kind with
    | code => simp [hkind, BlockKind.isFunctionEntry] at hentry
    | subroutine => exact .inl rfl
    | handler => exact .inr rfl
  · obtain ⟨-, htransfer⟩ := h.marks hab (by simp)
    obtain ⟨flow, hflow, hclass, heq⟩ := Profile.exists_of_transfer_notTaken htransfer
    exact ⟨flow, hflow, hclass, (hoffset a b flow).1 heq⟩
  · obtain ⟨-, htransfer⟩ := h.marks hab (by simp)
    obtain ⟨flow, hflow, hclass, hne⟩ := Profile.exists_of_transfer_branch htransfer
    exact ⟨⟨flow, hflow, hclass, (not_congr (hoffset a b flow)).1 hne⟩, h.found hab (.inr rfl)⟩
  · split
    · rename_i hfound
      -- what left the block is no call, since the classes are apart
      obtain ⟨b, hcall | htaken⟩ := h.left hfound
      · obtain ⟨-, htransfer⟩ := h.marks hcall (by simp)
        have hcalls : (p.opcodeClass .call).contains (g.block a).lastOpcode = true :=
          (Profile.Regular.transfer_eq_call_iff.1 htransfer).1
        have hsame := hp.eq_of_contains hcalls hclass
        rcases hflow with rfl | rfl <;> cases hsame
      · exact ⟨b, htaken, fun c hc => h.single hc htaken⟩
    · rename_i hfound
      exact fun b htaken => hfound (h.found htaken (.inr rfl))

end Graph

namespace Recorder

open TraceFlow.Graph

variable {s : Setup} {r : Recorder}

/-- No block of a closed trace lies behind the block after it. -/
theorem Sound.pc_finish_le (h : Sound s r) (id : BlockId) :
    ((r.finish s.profile).graph.block id).pc ≤ s.profile.beginAddress + 1 := by
  rw [pc_finish]
  split
  · exact Nat.le_refl _
  · rcases Nat.lt_or_ge id r.graph.size with hlt | hge
    · exact Nat.le_succ_of_le (h.pc_le hlt)
    · rw [block_of_size_le hge]
      exact Nat.zero_le _

/-- **Edge kinds are faithful to the opcode classes.** In whatever order calls, jumps, returns and
interrupts create an edge and pass it again, its kind tells how far it leads from what opcode, a
branch that was found taken has one taken edge, and an edge that is marked stays so to the end of
the trace. -/
theorem edge_kinds_tell (hp : s.profile.Regular) (h : Reached s r) :
    KindsTell s.profile (r.finish s.profile).graph ∧
      ∀ recs, KindsStay r.graph (r.feedAll s recs).graph ∧
        KindsStay r.graph ((r.feedAll s recs).finish s.profile).graph := by
  refine ⟨(h.sound.kinded_finish h.kinded).1.kindsTell hp h.sound.pc_finish_le, fun recs => ?_⟩
  have hstay := h.sound.kindsStay_feedAll h.kinded recs
  have hlast := h.feedAll recs
  exact ⟨hstay, hstay.trans (hlast.sound.kinded_finish hlast.kinded).2⟩

/-- A branch that is taken and then falls through, a call that returns, and a return that misses:
there is an edge of each kind. -/
theorem edge_kinds_tell_branches :
    let s : Setup := { profile := .gameBoy }
    let insts : List Instruction := [⟨0x100, [0xC2], [], none⟩, ⟨0x200, [0xCD], [], none⟩,
      ⟨0x300, [0xC9], [], none⟩, ⟨0x203, [0xC3], [], none⟩, ⟨0x100, [0xC2], [], none⟩,
      ⟨0x103, [0xC9], [], none⟩, ⟨0x400, [0x00], [], none⟩]
    let r := (Recorder.new s.profile).feedAll s (retired insts)
    let g := (r.finish s.profile).graph
    s.profile.Regular ∧ Reached s r ∧
      (KindsTell s.profile g ∧ ∀ recs, KindsStay r.graph (r.feedAll s recs).graph ∧
        KindsStay r.graph ((r.feedAll s recs).finish s.profile).graph) ∧
      g.edgeKind? 1 2 = some .taken ∧ g.edgeKind? 1 5 = some .notTaken ∧
      g.edgeKind? 2 3 = some .callTaken ∧ g.edgeKind? 2 4 = some .normal ∧
      g.edgeKind? 5 6 = some .returnMiss := by
  intro s insts r g
  have hreached : Reached s r := Reached.new.feedAll _
  refine ⟨Profile.gameBoy_regular, hreached, edge_kinds_tell Profile.gameBoy_regular hreached,
    ?_⟩
  decide +kernel

end Recorder

end TraceFlow
