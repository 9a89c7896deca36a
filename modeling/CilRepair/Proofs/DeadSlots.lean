import CilRepair.Proofs.CanonicalLayout
import CilRepair.Proofs.Edits
import CilRepair.Proofs.Runs

/-!
# Dead slots

A slot that no identity of the sequence names keeps the instruction it held, and references may
still name it.  What it holds never matters: every look through an operand asks first whether the
identity is live.  This is a statement about two bodies, one operation, and what is left of both.

* `MethodBody.SameLive` — two bodies that differ in dead slots only.
* `MethodBody.SameLiveAfter` — what an operation leaves of such a pair.
* `MethodBody.SameLive.sweep`, `insert`, `thin`, `set` — the four ways in which operations change a
  body; each keeps the pair together.
* `MethodBody.dead_slots_invisible` — all operations and all queries.

Neither body need be valid.  Only a new instruction needs an identity of its own: where identities
have run out, the next one is that of an old slot, which may be a dead one.

## Design notes

The relation compares what the two bodies hold and not what they are, so each lemma about a query is
an equation between two bodies and each lemma about an operation returns a pair of the same kind.  A
caller chains such pairs with `SameLiveAfter.trans` and never opens an arena.

An operation is proved once for the way in which it changes a body and not once for its name:
layout, remapping and repair of operands are sweeps, removals are thinnings, and folding overwrites
one slot and thins twice.  The rounds of narrowing and of folding are followed by the induction that
belongs to their definitions, with the second body generalised, since each round leaves a new pair.

The bound on the arena stands only where a slot is added.  `crowdedGhost` shows that it is needed:
at the end of the identities the appended return gets the identity of a dead slot.
-/

namespace CilRepair

/-! ### Slots -/

section Slots

variable {a a' : List Instruction} (hslots : a'.length = a.length)

include hslots

/-- Two arenas that agree in a slot agree there after the same write. -/
theorem getElem?_set_congr {m : Nat} (h : a'[m]? = a[m]?) (n : Nat) (i : Instruction) :
    (a'.set n i)[m]? = (a.set n i)[m]? := by
  rw [List.getElem?_set, List.getElem?_set, hslots, h]

/-- And after the same instructions are put behind both. -/
theorem getElem?_append_congr {m : Nat} (h : a'[m]? = a[m]?) (is : List Instruction) :
    (a' ++ is)[m]? = (a ++ is)[m]? := by
  rw [List.getElem?_append, List.getElem?_append, hslots, h]

/-- **A pass sees nothing but the slots that it visits.**  The identities that are compared, `ids`,
may be more than those that are visited, `order`: the induction shortens the order and keeps the
rest. -/
theorem sweep_congr {σ : Type} (f : σ → List InstrId → Instruction → Instruction × σ)
    {ids order : List InstrId} (hsub : order ⊆ ids)
    (h : ∀ id ∈ ids, a'[id.slot]? = a[id.slot]?) (s : σ) :
    (∀ id ∈ ids, (sweep f order a' s).1[id.slot]? = (sweep f order a s).1[id.slot]?) ∧
      (sweep f order a' s).2 = (sweep f order a s).2 := by
  induction order generalizing a a' s with
  | nil => exact ⟨h, rfl⟩
  | cons head rest ih =>
      have hrest : rest ⊆ ids := fun id hid => hsub (List.mem_cons_of_mem _ hid)
      rw [sweep, sweep, h head (hsub List.mem_cons_self)]
      cases a[head.slot]? with
      | none => exact ih hslots hrest h s
      | some i =>
          -- Both arenas are written in the same slot, and so they still agree where they did.
          refine ih (by simpa using hslots) hrest (fun id hid => ?_) _
          exact getElem?_set_congr hslots (h id hid) _ _

end Slots

/-- An identity that is found in a sequence is in it.  So a query that looks for a position before
it looks into a slot never reads a dead one. -/
theorem mem_of_lastIndexOf? {id : InstrId} {ids : List InstrId} {p : Nat}
    (h : lastIndexOf? id ids = some p) : id ∈ ids := by
  induction ids generalizing p with
  | nil => simp [lastIndexOf?] at h
  | cons head rest ih =>
      rw [lastIndexOf?] at h
      cases hlast : lastIndexOf? id rest with
      | some q => exact List.mem_cons_of_mem _ (ih hlast)
      | none =>
          by_cases heq : head = id
          · exact heq ▸ List.mem_cons_self
          · simp [hlast, heq] at h

namespace MethodBody

/-! ### Pairs of bodies -/

/-- **Two bodies that differ in dead slots only,** and perhaps in whether locals are initialised,
which nothing reads. -/
structure SameLive (b c : MethodBody) : Prop where
  order : c.order = b.order
  slots : c.arena.length = b.arena.length
  live : ∀ id ∈ b.order, c.get? id = b.get? id
  locals : c.locals = b.locals
  handlers : c.handlers = b.handlers
  maxStack : c.maxStack = b.maxStack

/-- **What an operation leaves of such a pair:** such a pair, in which each body initialises its
locals if it did before. -/
structure SameLiveAfter (b c b' c' : MethodBody) : Prop extends SameLive b' c' where
  left : b'.initLocals = b.initLocals
  right : c'.initLocals = c.initLocals

/-- **The same outcome for both:** such a pair again, and one answer. -/
def SameOutcome {α : Type} (b c : MethodBody) (x y : MethodBody × α) : Prop :=
  SameLiveAfter b c x.1 y.1 ∧ y.2 = x.2

variable {b c b' c' b'' c'' : MethodBody}

/-- A pair that an operation leaves alone. -/
theorem SameLive.unchanged (h : b.SameLive c) : SameLiveAfter b c b c := ⟨h, rfl, rfl⟩

theorem SameLiveAfter.trans (h : SameLiveAfter b c b' c') (h' : SameLiveAfter b' c' b'' c'') :
    SameLiveAfter b c b'' c'' :=
  ⟨h'.toSameLive, h'.left.trans h.left, h'.right.trans h.right⟩

namespace SameLive

variable (h : b.SameLive c)

include h

/-! ### What is read -/

/-- The sequence is the same, and with it every question that asks for identities and places
only. -/
theorem length_eq : c.length = b.length := by
  rw [length, h.order, ← length]

theorem idAt?_eq (p : Nat) : c.idAt? p = b.idAt? p := by
  rw [idAt?, h.order, ← idAt?]

theorem isLive_eq : c.isLive = b.isLive := by
  funext id
  rw [isLive, h.order, ← isLive]

theorem position?_eq (id : InstrId) : c.position? id = b.position? id := by
  rw [position?, h.order, ← position?]

theorem lastPosition?_eq (id : InstrId) : c.lastPosition? id = b.lastPosition? id := by
  rw [lastPosition?, h.order, ← lastPosition?]

theorem last?_eq : c.last? = b.last? := by
  rw [last?, h.order, ← last?]

/-- The next identity depends on how many slots there are, and not on what they hold. -/
theorem fresh_eq : c.fresh = b.fresh := by
  rw [fresh, h.slots, ← fresh]

/-- A place of the sequence names a live slot. -/
theorem get?_of_idAt? {p : Nat} {id : InstrId} (hid : b.idAt? p = some id) :
    c.get? id = b.get? id :=
  h.live id (mem_order_iff.mpr ⟨p, hid⟩)

/-- A place is read through its identity, which is live. -/
theorem at?_eq (p : Nat) : c.at? p = b.at? p := by
  cases hid : b.idAt? p with
  | none => rw [at?, at?, h.idAt?_eq, hid, Option.bind_none, Option.bind_none]
  | some id =>
      rw [at?_of_idAt? ((h.idAt?_eq p).trans hid), at?_of_idAt? hid, h.get?_of_idAt? hid]

/-- What the two bodies have live is the same list of identities and instructions. -/
theorem live_eq : c.live = b.live := by
  rw [MethodBody.live, MethodBody.live, h.order]
  exact List.filterMap_congr fun id hid => by rw [h.live id hid]

theorem instructions_eq : c.instructions = b.instructions := by
  rw [instructions, instructions, h.order]
  exact List.filterMap_congr h.live

/-- References are counted in live code and in handlers; a dead slot that names something does not
count. -/
theorem references_eq : c.references = b.references := by
  rw [references, references, h.instructions_eq, h.handlers]

theorem branchCount_eq : c.branchCount = b.branchCount := by
  rw [branchCount, h.instructions_eq, ← branchCount]

/-- Whether control can run off the end is decided by the last live instruction. -/
theorem endsTerminal_eq : c.endsTerminal = b.endsTerminal := by
  rw [Bool.eq_iff_iff, endsTerminal_iff, endsTerminal_iff, h.length_eq, h.at?_eq]

/-! ### Passes -/

/-- **A pass keeps the pair together,** and ends in the same state.  Every operation that changes
instructions where they stand is a pass. -/
theorem sweep {σ : Type} (f : σ → List InstrId → Instruction → Instruction × σ) (s : σ) :
    SameOutcome b c (b.sweep f s) (c.sweep f s) := by
  obtain ⟨hlive, hstate⟩ := sweep_congr h.slots f (List.Subset.refl b.order) h.live s
  have harena : CilRepair.sweep f c.order c.arena s = CilRepair.sweep f b.order c.arena s := by
    rw [h.order]
  refine ⟨⟨⟨h.order, ?_, fun id hid => ?_, h.locals, h.handlers, h.maxStack⟩, rfl, rfl⟩, ?_⟩
  · rw [length_arena_sweep, length_arena_sweep, h.slots]
  · show (CilRepair.sweep f c.order c.arena s).1[id.slot]? = _
    rw [harena]
    exact hlive id hid
  · show (CilRepair.sweep f c.order c.arena s).2 = _
    rw [harena]
    exact hstate

theorem updateOffsets : SameLiveAfter b c b.updateOffsets c.updateOffsets := (h.sweep placeAt 0).1

theorem simplifyBranches : SameLiveAfter b c b.simplifyBranches c.simplifyBranches :=
  (h.sweep widen ()).1

/-- A displacement is measured to a live target: the position is looked up first, and only a target
that has one is read. -/
theorem narrowDisplacement?_eq (p : Nat) (i : Instruction) :
    c.narrowDisplacement? p i = b.narrowDisplacement? p i := by
  unfold narrowDisplacement?
  cases i.branchTarget? with
  | none => rfl
  | some target =>
      dsimp only
      rw [h.lastPosition?_eq]
      cases hp : b.lastPosition? target with
      | none => rfl
      | some q => rw [h.live target (mem_of_lastIndexOf? hp)]

theorem narrowStep_eq : c.narrowStep = b.narrowStep := by
  funext narrowed rest i
  rw [narrowStep, narrowStep, canNarrow, canNarrow, h.narrowDisplacement?_eq, h.length_eq]

theorem narrowRound : SameOutcome b c b.narrowRound c.narrowRound := by
  rw [MethodBody.narrowRound, MethodBody.narrowRound, h.narrowStep_eq]
  exact h.sweep b.narrowStep 0

/-- **The rounds of narrowing** find the same to narrow, and so there are equally many.  A round
that narrows nothing in one body narrows nothing in the other, which is what the induction needs. -/
theorem optimizeBranches : SameLiveAfter b c b.optimizeBranches c.optimizeBranches := by
  induction b using optimizeBranches.induct generalizing c with
  | case1 b hdone =>
      have hoffsets := h.updateOffsets
      have hdone' : c.updateOffsets.narrowRound.2 = 0 := by
        rw [hoffsets.narrowRound.2, hdone]
      rw [MethodBody.optimizeBranches, if_pos hdone, MethodBody.optimizeBranches, if_pos hdone']
      exact hoffsets
  | case2 b hmore ih =>
      have hoffsets := h.updateOffsets
      obtain ⟨hround, hcount⟩ := hoffsets.narrowRound
      have hmore' : ¬ c.updateOffsets.narrowRound.2 = 0 := by rwa [hcount]
      have hnext : b.optimizeBranches = b.updateOffsets.narrowRound.1.optimizeBranches := by
        conv_lhs => rw [MethodBody.optimizeBranches, if_neg hmore]
      have hnext' : c.optimizeBranches = c.updateOffsets.narrowRound.1.optimizeBranches := by
        conv_lhs => rw [MethodBody.optimizeBranches, if_neg hmore']
      rw [hnext, hnext']
      exact (hoffsets.trans hround).trans (ih hround.toSameLive)

theorem canonicalizeBranches : SameLiveAfter b c b.canonicalizeBranches c.canonicalizeBranches :=
  h.simplifyBranches.trans h.simplifyBranches.optimizeBranches

/-! ### Insertions -/

/-- **A new instruction keeps the pair together,** if it gets a slot of its own.  The identity is
new in both bodies, for they have equally many slots. -/
theorem insert (hroom : b.arena.length < UInt32.size) (p : Nat) (i : Instruction) :
    SameLiveAfter b c (b.insert p i) (c.insert p i) := by
  refine ⟨⟨?_, ?_, fun id hid => ?_, h.locals, h.handlers, h.maxStack⟩, rfl, rfl⟩
  · rw [MethodBody.insert, MethodBody.insert, h.order, h.fresh_eq]
  · rw [length_arena_insert, length_arena_insert, h.slots]
  · show (c.arena ++ [i])[id.slot]? = (b.arena ++ [i])[id.slot]?
    refine getElem?_append_congr h.slots ?_ [i]
    rcases (List.mem_insertIdx (Nat.min_le_right _ _)).mp hid with rfl | hid
    · rw [slot_fresh hroom, List.getElem?_eq_none h.slots.le, List.getElem?_eq_none le_rfl]
    · exact h.live id hid

/-- Instructions put in one after the other; there is room for all of them, and so for each.  By
induction on the instructions, with the place moving on. -/
theorem insertAll {is : List Instruction} (hroom : b.arena.length + is.length ≤ UInt32.size)
    (p : Nat) : SameOutcome b c (b.insertAll p is) (c.insertAll p is) := by
  induction is generalizing b c p with
  | nil => exact ⟨h.unchanged, rfl⟩
  | cons i is ih =>
      rw [List.length_cons] at hroom
      have hinsert := h.insert (by omega) p i
      have hroom' : (b.insert p i).arena.length + is.length ≤ UInt32.size := by
        rw [length_arena_insert]
        omega
      obtain ⟨hrest, hids⟩ := ih hinsert.toSameLive hroom' (p + 1)
      refine ⟨hinsert.trans hrest, ?_⟩
      show c.fresh :: _ = b.fresh :: _
      rw [h.fresh_eq, hids]

/-- An instruction at the end is one inserted at the last place. -/
theorem push (hroom : b.arena.length < UInt32.size) (i : Instruction) :
    SameLiveAfter b c (b.push i) (c.push i) := by
  rw [push_eq_insert, push_eq_insert, h.order]
  exact h.insert hroom _ i

/-! ### Removals -/

/-- **A pair that loses the same identities stays together.** -/
theorem thin {order : List InstrId} (hsub : order ⊆ b.order) :
    SameLiveAfter b c { b with order } { c with order } :=
  ⟨⟨rfl, h.slots, fun id hid => h.live id (hsub hid), h.locals, h.handlers, h.maxStack⟩, rfl, rfl⟩

theorem remove (id : InstrId) : SameLiveAfter b c (b.remove id) (c.remove id) := by
  rw [MethodBody.remove, MethodBody.remove, h.order]
  exact h.thin List.erase_subset

/-- The test is asked about live instructions only, and so it removes the same identities. -/
theorem removeWhere (test : InstrId → Instruction → Bool) :
    SameLiveAfter b c (b.removeWhere test) (c.removeWhere test) := by
  have horder : (c.removeWhere test).order = (b.removeWhere test).order := by
    rw [MethodBody.removeWhere, MethodBody.removeWhere, h.order]
    exact List.filter_congr fun id hid => by rw [h.live id hid]
  have hcleared : c.removeWhere test = { c with order := (b.removeWhere test).order } := by
    rw [← horder]
    rfl
  rw [hcleared]
  exact h.thin (thins_removeWhere b test).order.subset

/-! ### References -/

/-- A remapping rewrites operands in a pass, and the boundaries of handlers, which are the same. -/
theorem remap (m : Remapping) : SameOutcome b c (b.remap m) (c.remap m) := by
  obtain ⟨hswept, hcount⟩ := h.sweep (remapStep m) 0
  refine ⟨⟨⟨hswept.order, hswept.slots, hswept.live, hswept.locals, ?_, hswept.maxStack⟩,
    hswept.left, hswept.right⟩, ?_⟩
  · rw [handlers_remap, handlers_remap, h.handlers]
  · show (c.sweep (remapStep m) 0).2 + _ = (b.sweep (remapStep m) 0).2 + _
    rw [hcount, h.handlers]

/-- **Padding is recognised at live places,** and so is what follows it.  After the redirections the
references are compared once more, since what is named by none of them goes. -/
theorem removeNops : SameOutcome b c b.removeNops c.removeNops := by
  have hremap := (h.remap (redirects b.live).1).1
  have hclear := hremap.removeWhere fun id i =>
    i.isNop && !(b.remap (redirects b.live).1).1.references.contains id
  have hremoved : SameLiveAfter b c b.removeNops.1 c.removeNops.1 := by
    rw [MethodBody.removeNops, MethodBody.removeNops, h.live_eq]
    dsimp only
    rw [hremap.references_eq]
    exact hremap.trans hclear
  refine ⟨hremoved, ?_⟩
  show c.length - c.removeNops.1.length = b.length - b.removeNops.1.length
  rw [h.length_eq, hremoved.length_eq]

/-- **A replacement is refused for both or for neither,** and gets the same identities.  It is an
insertion, a remapping and a removal, each of which keeps the pair together. -/
theorem replace? (old : InstrId) {replacement : List Instruction}
    (hroom : b.arena.length + replacement.length ≤ UInt32.size) :
    Option.Rel (SameOutcome b c) (b.replace? old replacement) (c.replace? old replacement) := by
  cases replacement with
  | nil => exact .none
  | cons i is =>
      cases hposition : b.position? old with
      | none =>
          simp only [MethodBody.replace?, h.position?_eq, hposition]
          exact .none
      | some position =>
          obtain ⟨hinserted, hids⟩ := h.insertAll hroom position
          simp only [MethodBody.replace?, h.position?_eq, hposition]
          refine .some ⟨?_, hids⟩
          rw [hids]
          have hremap := (hinserted.remap
            ((b.insertAll position (i :: is)).2.head?.toList.map (old, ·))).1
          exact (hinserted.trans hremap).trans (hremap.remove old)

/-! ### Folding -/

theorem tripleValue?_eq {first second third : InstrId} (hfirst : first ∈ b.order)
    (hsecond : second ∈ b.order) (hthird : third ∈ b.order) :
    c.tripleValue? first second third = b.tripleValue? first second third := by
  rw [tripleValue?, tripleValue?, h.live first hfirst, h.live second hsecond, h.live third hthird]

/-- The search for a triple reads the three slots in front of it, all of them live.  By induction
along the sequence. -/
theorem foldSiteIn?_eq (references : List InstrId) {order : List InstrId}
    (hsub : order ⊆ b.order) :
    c.foldSiteIn? references order = b.foldSiteIn? references order := by
  induction order with
  | nil => rfl
  | cons first rest ih =>
      have hfirst : first ∈ b.order := hsub List.mem_cons_self
      have hrest : rest ⊆ b.order := fun id hid => hsub (List.mem_cons_of_mem _ hid)
      rcases rest with _ | ⟨second, _ | ⟨third, rest⟩⟩
      · rfl
      · rfl
      · have hsecond : second ∈ b.order := hrest List.mem_cons_self
        have hthird : third ∈ b.order := hrest (List.mem_cons_of_mem _ List.mem_cons_self)
        rw [foldSiteIn?, foldSiteIn?, h.tripleValue?_eq hfirst hsecond hthird, ih hrest]

theorem foldSite?_eq : c.foldSite? = b.foldSite? := by
  rw [foldSite?, foldSite?, h.references_eq, h.order]
  exact h.foldSiteIn?_eq _ (List.Subset.refl _)

/-- A slot that is overwritten is the same afterwards, dead or not. -/
theorem set (id : InstrId) (i : Instruction) : SameLiveAfter b c (b.set id i) (c.set id i) := by
  refine ⟨⟨h.order, ?_, fun other hother => ?_, h.locals, h.handlers, h.maxStack⟩, rfl, rfl⟩
  · show (c.arena.modify _ _).length = (b.arena.modify _ _).length
    rw [List.length_modify, List.length_modify, h.slots]
  · show (c.arena.modify id.slot _)[other.slot]? = (b.arena.modify id.slot _)[other.slot]?
    have hother' : c.arena[other.slot]? = b.arena[other.slot]? := h.live other hother
    rw [List.getElem?_modify, List.getElem?_modify, hother']

theorem foldSite (site : FoldSite) :
    SameLiveAfter b c (b.foldSite site) (c.foldSite site) := by
  have hset := h.set site.first (.shortestLiteral site.value)
  have hsecond := hset.remove site.second
  exact (hset.trans hsecond).trans (hsecond.remove site.third)

/-- **Folding** finds the same triples, one after the other.  Each fold leaves a pair again, and the
induction goes on from there. -/
theorem foldLiterals : SameOutcome b c b.foldLiterals c.foldLiterals := by
  induction b using foldLiterals.induct generalizing c with
  | case1 b hnone =>
      rw [foldLiterals_of_none hnone, foldLiterals_of_none (h.foldSite?_eq.trans hnone)]
      exact ⟨h.unchanged, rfl⟩
  | case2 b site hsome folded count hfolded ih =>
      have hsite := h.foldSite site
      obtain ⟨hrest, hcount⟩ := ih hsite.toSameLive
      rw [foldLiterals_of_some hsome, foldLiterals_of_some (h.foldSite?_eq.trans hsome)]
      exact ⟨hsite.trans hrest, congrArg (· + 1) hcount⟩

/-! ### Repair -/

/-- Operands are repaired by what is live and by what comes next, both of which are decided by the
sequence. -/
theorem repairTargets : SameOutcome b c b.repairTargets c.repairTargets := by
  rw [MethodBody.repairTargets, MethodBody.repairTargets, h.last?_eq]
  cases b.last? with
  | none => exact ⟨h.unchanged, rfl⟩
  | some last =>
      rw [h.isLive_eq]
      exact h.sweep (repairStep b.isLive last) {}

theorem isWellOrdered_eq : c.isWellOrdered = b.isWellOrdered := by
  funext x
  simp only [isWellOrdered, h.lastPosition?_eq, h.length_eq]

/-- Handlers are repaired by the sequence alone.  In an empty sequence all of them go, in both
bodies. -/
theorem repairHandlers : SameOutcome b c b.repairHandlers c.repairHandlers := by
  have hfirst : c.first? = b.first? := by rw [first?, h.order, ← first?]
  rw [MethodBody.repairHandlers, MethodBody.repairHandlers, hfirst, h.last?_eq]
  cases b.first? with
  | none =>
      exact ⟨⟨⟨h.order, h.slots, h.live, h.locals, rfl, h.maxStack⟩, rfl, rfl⟩,
        by rw [h.handlers]⟩
  | some first =>
      cases b.last? with
      | none =>
          exact ⟨⟨⟨h.order, h.slots, h.live, h.locals, rfl, h.maxStack⟩, rfl, rfl⟩,
            by rw [h.handlers]⟩
      | some last =>
          dsimp only
          rw [h.handlers, h.isLive_eq, h.isWellOrdered_eq]
          exact ⟨⟨⟨h.order, h.slots, h.live, h.locals, rfl, h.maxStack⟩, rfl, rfl⟩, rfl⟩

theorem relinked : SameLiveAfter b c b.relinked c.relinked :=
  h.repairTargets.1.trans h.repairTargets.1.repairHandlers.1

/-- A return is appended to both or to neither. -/
theorem terminate (hroom : b.endsTerminal = true ∨ b.arena.length < UInt32.size) :
    SameOutcome b c b.terminate c.terminate := by
  by_cases hend : b.endsTerminal = true
  · rw [terminate_of_endsTerminal hend, terminate_of_endsTerminal (h.endsTerminal_eq.trans hend)]
    exact ⟨h.unchanged, rfl⟩
  · have hend' : ¬ c.endsTerminal = true := by rwa [h.endsTerminal_eq]
    rw [terminate_of_not_endsTerminal hend, terminate_of_not_endsTerminal hend']
    exact ⟨h.push (hroom.resolve_left hend) .ret, rfl⟩

/-- Locals are declared for live instructions: a dead slot that uses a higher one declares
nothing. -/
theorem declareLocals : SameOutcome b c b.declareLocals c.declareLocals := by
  have hrequired : c.requiredLocals = b.requiredLocals := by
    rw [requiredLocals, requiredLocals, h.instructions_eq]
  rw [MethodBody.declareLocals, MethodBody.declareLocals, hrequired, h.locals]
  exact ⟨⟨⟨h.order, h.slots, h.live, rfl, h.handlers, h.maxStack⟩, rfl, rfl⟩, rfl⟩

/-- **Repair keeps the pair together and gives one report for both,** if a return that it appends
gets a slot of its own.  The four steps are followed one by one, and the reports are added up. -/
theorem repair (hroom : b.repair.2.appendedReturns = 0 ∨ b.arena.length < UInt32.size) :
    SameOutcome b c b.repair c.repair := by
  obtain ⟨htargets, htargetsReport⟩ := h.repairTargets
  obtain ⟨-, hhandlersReport⟩ := htargets.repairHandlers
  have hrelinked := h.relinked
  have hroom' : b.relinked.endsTerminal = true ∨ b.relinked.arena.length < UInt32.size := by
    rw [length_arena_relinked]
    exact endsTerminal_or_room hroom
  obtain ⟨hclosed, hclosedReport⟩ := hrelinked.terminate hroom'
  obtain ⟨hdeclared, hdeclaredReport⟩ := hclosed.declareLocals
  refine ⟨(hrelinked.trans hclosed).trans hdeclared, ?_⟩
  rw [repair_snd, repair_snd, htargetsReport, hhandlersReport, hclosedReport, hdeclaredReport]

/-- Layout is decided by the report, and so it is done for both or for neither. -/
theorem repairAndLayOut (hroom : b.repair.2.appendedReturns = 0 ∨ b.arena.length < UInt32.size) :
    SameOutcome b c b.repairAndLayOut c.repairAndLayOut := by
  obtain ⟨hrepair, hreport⟩ := h.repair hroom
  refine ⟨?_, hreport⟩
  rw [MethodBody.repairAndLayOut, MethodBody.repairAndLayOut]
  dsimp only
  rw [hreport]
  split
  · exact hrepair.trans hrepair.canonicalizeBranches
  · exact hrepair

/-! ### Stack depths -/

/-- The exploration reads places, successors and entries, and all three are the same. -/
theorem computeMaxStack_eq : c.computeMaxStack = b.computeMaxStack := by
  have hsuccessors : c.successors = b.successors := by
    funext p i depth
    simp only [successors, h.lastPosition?_eq]
  have hentries : c.entries = b.entries := by
    have hhandler : c.handlerEntries = b.handlerEntries := by
      funext x
      have hlast : c.lastPosition? = b.lastPosition? := funext h.lastPosition?_eq
      rw [handlerEntries, handlerEntries, hlast]
    rw [entries, entries, h.order, h.handlers, hhandler]
  have hdepths : c.depths = b.depths := by
    rw [depths, depths, h.length_eq, hentries]
    exact explore_map id (fun p => by rw [h.at?_eq, Option.map_id]; rfl)
      (fun p i depth => by rw [hsuccessors]; rfl) _ _
  have hpeak : c.peakAt = b.peakAt := by
    funext p depth
    simp only [peakAt, h.at?_eq]
  rw [computeMaxStack, computeMaxStack, maxDepth, maxDepth, hdepths, hpeak]

end SameLive

end MethodBody

/-! ### The evaluator -/

namespace Evaluator

variable {e : Evaluator} {c : MethodBody} (h : e.body.SameLive c)

include h

/-- One step reads the instruction at a live place and goes to a live target.  A jump to a dead
target finds no place in either body. -/
theorem stepAt_sameLive (p : Nat) (frame : Frame) :
    (e.withBody c).stepAt p frame = e.stepAt p frame := by
  have hnext : (e.withBody c).nextPosition p = e.nextPosition p := by
    funext jump
    have hlast : c.lastPosition? = e.body.lastPosition? := funext h.lastPosition?_eq
    rw [nextPosition, nextPosition, body_withBody, hlast]
  rw [stepAt, stepAt, body_withBody, h.idAt?_eq]
  cases hid : e.body.idAt? p with
  | none => rfl
  | some id =>
      dsimp only
      rw [h.get?_of_idAt? hid, hnext]
      rfl

/-- **A run visits live slots only.**  By induction on the budget, with the place and the frame
generalised. -/
theorem runFrom_sameLive (target : InstrId) (n p : Nat) (frame : Frame) :
    (e.withBody c).runFrom target n p frame = e.runFrom target n p frame := by
  induction n generalizing p frame with
  | zero =>
      cases hid : e.body.idAt? p with
      | none =>
          rw [runFrom_of_idAt?_eq_none hid, runFrom_of_idAt?_eq_none ((h.idAt?_eq p).trans hid)]
      | some id =>
          rw [runFrom_zero hid, runFrom_zero ((h.idAt?_eq p).trans hid), budget_withBody]
  | succ n ih =>
      rw [runFrom_succ_eq, runFrom_succ_eq, stepAt_sameLive h, body_withBody, h.idAt?_eq]
      cases e.stepAt p frame with
      | error reason => rfl
      | ok result => dsimp only; rw [ih]

theorem run_sameLive (target : InstrId) (locals : List Int32) :
    (e.withBody c).run target locals = e.run target locals := by
  rw [run, run, body_withBody, h.isLive_eq, budget_withBody, runFrom_sameLive h]

theorem peekStack_sameLive (target : InstrId) :
    (e.withBody c).peekStack target = e.peekStack target := by
  have hzero : (e.withBody c).zeroLocals = e.zeroLocals := by
    rw [zeroLocals, zeroLocals, body_withBody, h.locals]
  rw [peekStack, peekStack, hzero, run_sameLive h]

/-- The values that locals start with are read off live stores, and the run that follows is the
same. -/
theorem resolveLocal_sameLive (target : InstrId) (index : UInt16) :
    (e.withBody c).resolveLocal target index = e.resolveLocal target index := by
  have hseeds : (e.withBody c).seededLocals target = e.seededLocals target := by
    rw [seededLocals, seededLocals, zeroLocals, zeroLocals, body_withBody, h.instructions_eq,
      h.live_eq, h.locals, offsetShift_withBody]
  rw [resolveLocal, resolveLocal, hseeds, run_sameLive h, body_withBody, h.locals]

end Evaluator

/-! ### The result -/

namespace MethodBody

/-- **Dead slots are invisible.**  For two bodies that differ in dead slots only, repair with and
without layout, narrowing, removal of padding, folding and replacement give the same answer and
leave two bodies that again differ in dead slots only; and depths, counts, references and the
queries of the evaluator are the same.  The sequences need not be valid.  Repair and replacement
need an identity of its own for each slot that they add. -/
theorem dead_slots_invisible (b c : MethodBody) (h : b.SameLive c) :
    (b.repair.2.appendedReturns = 0 ∨ b.arena.length < UInt32.size →
      SameOutcome b c b.repair c.repair ∧
        SameOutcome b c b.repairAndLayOut c.repairAndLayOut) ∧
    SameLiveAfter b c b.optimizeBranches c.optimizeBranches ∧
    SameOutcome b c b.removeNops c.removeNops ∧
    SameOutcome b c b.foldLiterals c.foldLiterals ∧
    (∀ old replacement, b.arena.length + replacement.length ≤ UInt32.size →
      Option.Rel (SameOutcome b c) (b.replace? old replacement) (c.replace? old replacement)) ∧
    c.computeMaxStack = b.computeMaxStack ∧
    c.branchCount = b.branchCount ∧
    c.references = b.references ∧
    ∀ (memory : Memory) (budget : Nat) (shift : Option Int32) (target : InstrId),
      Evaluator.peekStack ⟨c, memory, budget, shift⟩ target =
          Evaluator.peekStack ⟨b, memory, budget, shift⟩ target ∧
        ∀ index, Evaluator.resolveLocal ⟨c, memory, budget, shift⟩ target index =
          Evaluator.resolveLocal ⟨b, memory, budget, shift⟩ target index := by
  refine ⟨fun hroom => ⟨h.repair hroom, h.repairAndLayOut hroom⟩, h.optimizeBranches,
    h.removeNops, h.foldLiterals, fun old _ hroom => h.replace? old hroom, h.computeMaxStack_eq,
    h.branchCount_eq, h.references_eq, fun memory budget shift target => ?_⟩
  exact ⟨Evaluator.peekStack_sameLive (e := ⟨b, memory, budget, shift⟩) h target,
    fun index => Evaluator.resolveLocal_sameLive (e := ⟨b, memory, budget, shift⟩) h target index⟩

/-- A dead slot that a branch, a handler and the end of a protected range name. -/
def hauntedBody (ghost : Instruction) : MethodBody where
  arena := [.of (.branch .brtrue .short) (.target ⟨1⟩), ghost, .shortestLiteral 2,
    .shortestLiteral 3, .bare (.binary .add), .bare .pop]
  order := [⟨0⟩, ⟨2⟩, ⟨3⟩, ⟨4⟩, ⟨5⟩]
  locals := []
  handlers := [.finalizing ⟨0⟩ ⟨1⟩ ⟨1⟩ none]
  maxStack := 8
  initLocals := true

/-- Whether the slot holds a return or a store to an undeclared local, one branch and two boundaries
are repaired and a return is appended, and no local is declared.  The dead slot keeps what it
held. -/
theorem hauntedBody_invisible :
    (hauntedBody .ret).SameLive (hauntedBody (.of (.stloc .short) (.slot 7))) ∧
      SameOutcome (hauntedBody .ret) (hauntedBody (.of (.stloc .short) (.slot 7)))
        (hauntedBody .ret).repair (hauntedBody (.of (.stloc .short) (.slot 7))).repair ∧
      (hauntedBody (.of (.stloc .short) (.slot 7))).repair.2 =
        { retargetedBranches := 1, repairedBoundaries := 2, appendedReturns := 1 } ∧
      (hauntedBody (.of (.stloc .short) (.slot 7))).repair.1.arena[1]? =
        some (.of (.stloc .short) (.slot 7)) := by
  have hsame : (hauntedBody .ret).SameLive (hauntedBody (.of (.stloc .short) (.slot 7))) :=
    ⟨rfl, rfl, by decide, rfl, rfl, rfl⟩
  exact ⟨hsame, ((dead_slots_invisible _ _ hsame).1 (Or.inr (by decide))).1, by decide, by decide⟩

/-- A dead slot whose identity is the next one to be given out. -/
def crowdedGhost (ghost : Instruction) : MethodBody := crowded [ghost, .nop] [⟨1⟩] 4294967294

/-- A return that is appended takes the identity of the dead slot, and what is in that slot becomes
live. -/
theorem instructions_repair_crowdedGhost (ghost : Instruction) :
    (crowdedGhost ghost).repair.1.instructions = [.nop, ghost] := by
  have hrelinked : (crowdedGhost ghost).relinked = crowdedGhost ghost := rfl
  have hfresh : (crowdedGhost ghost).fresh = ⟨0⟩ := fresh_crowded (n := 0) (by simp [UInt32.size])
  have hopen : ¬ (crowdedGhost ghost).endsTerminal = true := Bool.false_ne_true
  rw [repair_fst, hrelinked, terminate_of_not_endsTerminal hopen, push, hfresh]
  rfl

/-- **Without an identity for the return a dead slot shows.**  Both bodies pass the check of their
arena and differ in dead slots only, and after repair the one ends in `nop` and the other in
`ret`. -/
theorem crowdedGhost_comes_alive :
    (crowdedGhost .nop).arenaFault? = none ∧ (crowdedGhost .ret).arenaFault? = none ∧
      (crowdedGhost .nop).SameLive (crowdedGhost .ret) ∧
      ¬ SameOutcome (crowdedGhost .nop) (crowdedGhost .ret) (crowdedGhost .nop).repair
        (crowdedGhost .ret).repair := by
  have hvalid : ∀ ghost, (crowdedGhost ghost).arenaFault? = none := fun ghost =>
    arenaFault?_eq_none_iff.mpr (arenaValid_crowded (by simp [InstrId.slot]) (by decide))
  have hsame : (crowdedGhost .nop).SameLive (crowdedGhost .ret) :=
    { order := rfl
      slots := by
        rw [crowdedGhost, crowdedGhost, length_arena_crowded, length_arena_crowded]
        rfl
      live := fun id hid => by
        rw [List.mem_singleton.mp hid]
        rfl
      locals := rfl
      handlers := rfl
      maxStack := rfl }
  refine ⟨hvalid .nop, hvalid .ret, hsame, fun houtcome => ?_⟩
  have hlive := houtcome.1.toSameLive.instructions_eq
  rw [instructions_repair_crowdedGhost, instructions_repair_crowdedGhost] at hlive
  exact absurd hlive (by decide)

end MethodBody

end CilRepair
