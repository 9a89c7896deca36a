import CilRepair.Proofs.Evaluation
import CilRepair.Proofs.MaxStack
import CilRepair.Proofs.Offsets

/-!
# The canonical layout

A body can be laid out in many ways: each branch narrow or wide, each offset up to date or not.
Widening every branch and bringing the offsets up to date forgets the choice, and what follows reads
nothing else.  So the layout that comes out in the end depends on the code alone.

* `MethodBody.Relaid` — two bodies hold the same code in different layouts.
* `MethodBody.Relaid.wideLayout_eq` — all wide, with their offsets, they are the same body.
* `MethodBody.Relaid.optimizeBranches` — the rounds of narrowing only lay a body out anew.
* `MethodBody.computeMaxStack_erased` — like the evaluator, the search for stack depths does not
  see layout.
* `MethodBody.canonicalizeBranches_canonical` — the result.

No size is bounded here.  Offsets that do not fit in 32 bits wrap around, in every layout of the
same code alike.

## Design notes

`Relaid` is the relation for which a canonical form is claimed, stated so that it can be read off
two bodies: widths of live branches and offsets of live instructions may differ, and nothing else.
It is then shown to be equality of erasures together with equality of dead slots, which is the form
that proofs use.  Dead slots matter, because no pass lays them out and a canonical form keeps them.

The rounds of narrowing are not compared.  Both bodies are widened and given their offsets, at which
point they are equal, and equal bodies are narrowed alike.  This is why no bound on sizes is asked
for and why nothing here knows when narrowing is sound.
-/

namespace CilRepair

/-! ### The same code in different layouts -/

namespace Instruction

/-- **An instruction in another layout:** a branch may have the other width, and the offset may
differ. -/
structure Relaid (i j : Instruction) : Prop where
  operand : j.operand = i.operand
  opcode : j.opcode = i.opcode ∨
    ∃ kind form form', i.opcode = .branch kind form ∧ j.opcode = .branch kind form'

variable {i j : Instruction}

/-- Layout is what is erased.  Erasure takes the width of a branch and the offset, and these are
what two layouts may differ in. -/
theorem relaid_iff : i.Relaid j ↔ j.erased = i.erased := by
  rcases i with ⟨op, operand, offset⟩
  rcases j with ⟨op', operand', offset'⟩
  constructor
  · rintro ⟨hoperand, hop⟩
    obtain rfl : operand' = operand := hoperand
    rcases hop with hop | ⟨kind, form, form', hop, hop'⟩
    · obtain rfl : op' = op := hop
      rfl
    · obtain rfl : op = .branch kind form := hop
      obtain rfl : op' = .branch kind form' := hop'
      rfl
  · intro h
    obtain ⟨hlong, rfl⟩ : op'.toLong = op.toLong ∧ operand' = operand := by
      simpa [erased] using h
    refine ⟨rfl, ?_⟩
    show op' = op ∨ _
    cases op <;> cases op' <;> simp_all [OpCode.toLong]

theorem Relaid.trans {k : Instruction} (h : i.Relaid j) (h' : j.Relaid k) : i.Relaid k :=
  relaid_iff.mpr ((relaid_iff.mp h').trans (relaid_iff.mp h))

end Instruction

namespace MethodBody

variable {b c d : MethodBody} {p : Nat} {i : Instruction}

/-- No identity of the sequence names the slot. -/
def DeadSlot (b : MethodBody) (n : Nat) : Prop := ∀ id ∈ b.order, id.slot ≠ n

instance (b : MethodBody) (n : Nat) : Decidable (b.DeadSlot n) :=
  inferInstanceAs (Decidable (∀ id ∈ b.order, id.slot ≠ n))

/-- **Two bodies hold the same code in different layouts.**  Live branches may have other widths and
live instructions other offsets; nothing else differs, dead slots included. -/
structure Relaid (b c : MethodBody) : Prop where
  order : c.order = b.order
  locals : c.locals = b.locals
  handlers : c.handlers = b.handlers
  maxStack : c.maxStack = b.maxStack
  initLocals : c.initLocals = b.initLocals
  dead : ∀ n, b.DeadSlot n → c.arena[n]? = b.arena[n]?
  live : ∀ p i, b.at? p = some i → ∃ j, c.at? p = some j ∧ i.Relaid j

theorem Relaid.deadSlot_iff (h : b.Relaid c) {n : Nat} : c.DeadSlot n ↔ b.DeadSlot n := by
  rw [DeadSlot, DeadSlot, h.order]

theorem Relaid.refl (b : MethodBody) : b.Relaid b :=
  ⟨rfl, rfl, rfl, rfl, rfl, fun _ _ => rfl,
    fun _ i hi => ⟨i, hi, Instruction.relaid_iff.mpr rfl⟩⟩

/-- Layouts of layouts are layouts. -/
theorem Relaid.trans (h : b.Relaid c) (h' : c.Relaid d) : b.Relaid d where
  order := h'.order.trans h.order
  locals := h'.locals.trans h.locals
  handlers := h'.handlers.trans h.handlers
  maxStack := h'.maxStack.trans h.maxStack
  initLocals := h'.initLocals.trans h.initLocals
  dead n hn := (h'.dead n (h.deadSlot_iff.mpr hn)).trans (h.dead n hn)
  live p i hi := by
    obtain ⟨j, hj, hij⟩ := h.live p i hi
    obtain ⟨k, hk, hjk⟩ := h'.live p j hj
    exact ⟨k, hk, hij.trans hjk⟩

/-- **Bodies are equal if they agree at every place,** in their dead slots, and in what is no code.
Each slot is one or the other: it has a place, or no identity names it. -/
theorem eq_of_places (hb : b.ArenaValid) (horder : c.order = b.order)
    (hlocals : c.locals = b.locals) (hhandlers : c.handlers = b.handlers)
    (hmax : c.maxStack = b.maxStack) (hinit : c.initLocals = b.initLocals)
    (hdead : ∀ n, b.DeadSlot n → c.arena[n]? = b.arena[n]?)
    (hlive : ∀ p, c.at? p = b.at? p) : c = b := by
  have harena : c.arena = b.arena := by
    apply List.ext_getElem?
    intro n
    by_cases hn : b.DeadSlot n
    · exact hdead n hn
    · -- The slot is that of a live identity, whose place both bodies have.
      obtain ⟨id, hid, rfl⟩ : ∃ id ∈ b.order, id.slot = n := by
        unfold DeadSlot at hn
        push Not at hn
        exact hn
      obtain ⟨p, hp⟩ := mem_order_iff.mp hid
      have hp' : c.idAt? p = some id := by rw [idAt?, horder, ← idAt?, hp]
      have hat := hlive p
      rw [at?_of_idAt? hp, at?_of_idAt? hp'] at hat
      exact hat
  rcases b with ⟨arena, order, locals, handlers, maxStack, initLocals⟩
  rcases c with ⟨arena', order', locals', handlers', maxStack', initLocals'⟩
  simp_all

/-- **The same code has the same erasure.**  A slot is dead, where nothing differs, or live and
found at its place. -/
theorem Relaid.erased_eq (hb : b.ArenaValid) (h : b.Relaid c) : c.erased = b.erased := by
  refine eq_of_places (arenaValid_erased.mpr hb) h.order h.locals h.handlers h.maxStack
    h.initLocals (fun n hn => ?_) fun p => ?_
  · show (c.arena.map Instruction.erased)[n]? = (b.arena.map Instruction.erased)[n]?
    rw [List.getElem?_map, List.getElem?_map, h.dead n hn]
  · rw [at?_erased, at?_erased]
    cases hi : b.at? p with
    | some i =>
        obtain ⟨j, hj, hij⟩ := h.live p i hi
        rw [hj, Option.map_some, Option.map_some, Instruction.relaid_iff.mp hij]
    | none =>
        have hend : c.idAt? p = none := by
          rw [idAt?, h.order, ← idAt?, idAt?_eq_none_iff]
          by_contra hlt
          obtain ⟨i, hi'⟩ := hb.exists_at? (Nat.lt_of_not_le hlt)
          simp [hi'] at hi
        rw [at?, hend, Option.bind_none]

/-- To lay a body out anew is to change what is erased, in live slots. -/
theorem relaid_iff (hb : b.ArenaValid) :
    b.Relaid c ↔ c.erased = b.erased ∧
      ∀ n < b.arena.length, b.DeadSlot n → c.arena[n]? = b.arena[n]? := by
  refine ⟨fun h => ⟨h.erased_eq hb, fun n _ => h.dead n⟩, ?_⟩
  rintro ⟨hcode, hdead⟩
  have hmax : c.maxStack = b.maxStack := by
    simpa [erased] using congrArg MethodBody.maxStack hcode
  have hinit : c.initLocals = b.initLocals := by
    simpa [erased] using congrArg MethodBody.initLocals hcode
  refine ⟨order_of_erased_eq hcode, locals_of_erased_eq hcode, handlers_of_erased_eq hcode, hmax,
    hinit, fun n hn => ?_, fun p i hi => ?_⟩
  · rcases Nat.lt_or_ge n b.arena.length with hlt | hge
    · exact hdead n hlt hn
    · have hslots : c.arena.length = b.arena.length := by
        simpa [erased] using congrArg (fun x : MethodBody => x.arena.length) hcode
      rw [List.getElem?_eq_none hge, List.getElem?_eq_none (by omega)]
  · obtain ⟨j, hj, hij⟩ := exists_at?_of_erased_eq hcode hi
    exact ⟨j, hj, Instruction.relaid_iff.mpr hij⟩

/-! ### Passes that lay out -/

/-- **A pass whose steps change only the layout** leaves the same code. -/
theorem relaid_sweep {σ : Type} (f : σ → List InstrId → Instruction → Instruction × σ) (s : σ)
    (hb : b.ArenaValid) (hstep : ∀ s rest i, (f s rest i).1.erased = i.erased) :
    b.Relaid (b.sweep f s).1 where
  order := rfl
  locals := rfl
  handlers := rfl
  maxStack := rfl
  initLocals := rfl
  dead _ hn := getElem?_sweep_of_ne f hn b.arena s
  live _ _ hi := ⟨_, at?_sweep f s hb hi, Instruction.relaid_iff.mpr (hstep _ _ _)⟩

theorem ArenaValid.simplifyBranches (hb : b.ArenaValid) : b.simplifyBranches.ArenaValid :=
  hb.sweep widen ()

/-- Widening only lays out, -/
theorem relaid_simplifyBranches (hb : b.ArenaValid) : b.Relaid b.simplifyBranches := by
  refine relaid_sweep widen () hb fun _ _ i => ?_
  simp [widen, Instruction.erased]

/-- and so does bringing the offsets up to date, -/
theorem relaid_updateOffsets (hb : b.ArenaValid) : b.Relaid b.updateOffsets :=
  relaid_sweep placeAt 0 hb fun _ _ _ => rfl

/-- and so does a round of narrowing. -/
theorem relaid_narrowRound (hb : b.ArenaValid) : b.Relaid b.narrowRound.1 := by
  refine relaid_sweep b.narrowStep 0 hb fun n rest i => ?_
  rw [narrowStep]
  split
  · simp [Instruction.erased]
  · rfl

/-- **Narrowing lays the body out anew,** round by round, and does nothing else.  By induction on
the rounds that are left. -/
theorem relaid_optimizeBranches (hb : b.ArenaValid) : b.Relaid b.optimizeBranches := by
  induction b using optimizeBranches.induct with
  | case1 b h =>
      rw [optimizeBranches, if_pos h]
      exact relaid_updateOffsets hb
  | case2 b h ih =>
      rw [optimizeBranches, if_neg h]
      have hoffsets := relaid_updateOffsets hb
      have hvalid : b.updateOffsets.ArenaValid := hb.sweep placeAt 0
      have hround := relaid_narrowRound hvalid
      exact (hoffsets.trans hround).trans (ih (hvalid.sweep _ 0))

theorem relaid_canonicalizeBranches (hb : b.ArenaValid) : b.Relaid b.canonicalizeBranches :=
  (relaid_simplifyBranches hb).trans (relaid_optimizeBranches hb.simplifyBranches)

/-! ### One layout for all -/

/-- The first round sees a body only after its offsets were brought up to date. -/
theorem optimizeBranches_eq_of_updateOffsets_eq (h : c.updateOffsets = b.updateOffsets) :
    c.optimizeBranches = b.optimizeBranches := by
  conv_lhs => rw [optimizeBranches, h]
  conv_rhs => rw [optimizeBranches]

theorem at?_simplifyBranches (hb : b.ArenaValid) (p : Nat) :
    b.simplifyBranches.at? p = (b.at? p).map fun i => { i with opcode := i.opcode.toLong } :=
  at?_sweep_eq_map widen () hb p

/-- Wide and without its offset an instruction is erased, and the size does not depend on the
offset. -/
theorem sizeAt_simplifyBranches (hb : b.ArenaValid) (p : Nat) :
    b.simplifyBranches.sizeAt p = b.erased.sizeAt p := by
  rw [sizeAt, sizeAt, at?_simplifyBranches hb, at?_erased]
  cases b.at? p <;> rfl

/-- **What the wide layout has at a place** is read off the erased body: the instruction, and the
sum of the sizes before it. -/
theorem at?_wideLayout (hb : b.ArenaValid) (p : Nat) :
    b.simplifyBranches.updateOffsets.at? p =
      (b.erased.at? p).map fun i => { i with offset := UInt32.ofNat (b.erased.startAt p) } := by
  have hstart : b.simplifyBranches.startAt = b.erased.startAt :=
    startAt_congr fun q => sizeAt_simplifyBranches hb q
  rw [at?_updateOffsets hb.simplifyBranches, hstart, at?_simplifyBranches hb, at?_erased]
  cases b.at? p <;> rfl

/-- **All wide, with their offsets, the same code is the same body.**  At each place both have what
the erased body has, with the sum of the sizes before it, and their dead slots are equal. -/
theorem Relaid.wideLayout_eq (hb : b.ArenaValid) (h : b.Relaid c) :
    c.simplifyBranches.updateOffsets = b.simplifyBranches.updateOffsets := by
  have hc : c.ArenaValid := by
    rw [← arenaValid_erased, h.erased_eq hb, arenaValid_erased]
    exact hb
  have hwide : ∀ {x : MethodBody}, x.ArenaValid → x.Relaid x.simplifyBranches.updateOffsets :=
    fun hx => (relaid_simplifyBranches hx).trans (relaid_updateOffsets hx.simplifyBranches)
  refine eq_of_places (hb.simplifyBranches.sweep placeAt 0) h.order h.locals h.handlers h.maxStack
    h.initLocals (fun n hn => ?_) fun p => ?_
  · have hdead : b.DeadSlot n := hn
    rw [(hwide hc).dead n (h.deadSlot_iff.mpr hdead), (hwide hb).dead n hdead, h.dead n hdead]
  · rw [at?_wideLayout hc, at?_wideLayout hb, h.erased_eq hb]

/-- **The canonical layout depends on the code alone.** -/
theorem Relaid.canonicalizeBranches_eq (hb : b.ArenaValid) (h : b.Relaid c) :
    c.canonicalizeBranches = b.canonicalizeBranches :=
  optimizeBranches_eq_of_updateOffsets_eq (h.wideLayout_eq hb)

/-! ### Stack depths -/

/-- The depth behind an instruction depends on its opcode without its width, -/
@[simp] theorem depthAfter_erased (i : Instruction) (depth : Nat) :
    depthAfter i.erased depth = depthAfter i depth := by
  have heffect : i.opcode.toLong.stackEffect = i.opcode.stackEffect := by
    cases i.opcode with
    | branch kind form => cases kind <;> rfl
    | _ => rfl
  rw [depthAfter, depthAfter, Instruction.erased_opcode, heffect]

/-- and so do the places to which control can go. -/
@[simp] theorem successors_erased (b : MethodBody) (p : Nat) (i : Instruction) (depth : Nat) :
    b.erased.successors p i.erased depth = b.successors p i depth := by
  have honward : depthOnward i.erased depth = depthOnward i depth := by
    rw [depthOnward, depthOnward, Instruction.erased_opcode, OpCode.flow_toLong, depthAfter_erased]
  simp only [successors, honward, Instruction.targets_erased, Instruction.isTerminal_erased,
    lastPosition?_erased]

/-- **The search depends on the instructions at places and on what follows them.**  By induction
along the search, which visits the same places in the same order in both bodies. -/
theorem explore_map (g : Instruction → Instruction) (hat : ∀ p, c.at? p = (b.at? p).map g)
    (hsuccessors : ∀ p i depth, c.successors p (g i) depth = b.successors p i depth)
    (pending : List (Nat × Nat)) (table : DepthTable) :
    c.explore pending table = b.explore pending table := by
  fun_induction explore b pending table with
  | case1 => rw [explore]
  | case2 table p d rest hvacant i hi ih =>
      rw [explore, hvacant]
      simp only [hat, hi, Option.map_some, hsuccessors, ih]
  | case3 table p d rest hvacant hi ih =>
      rw [explore, hvacant]
      simp only [hat, hi, Option.map_none, ih]
  | case4 table p d rest hstale ih =>
      rw [explore]
      split
      · next hvacant => exact absurd hvacant hstale
      · exact ih

/-- **The declared maximum of the stack does not depend on layout.**  The search sees stack effects
and successors, and erasure keeps both. -/
theorem computeMaxStack_erased (b : MethodBody) :
    b.erased.computeMaxStack = b.computeMaxStack := by
  have hdepths : b.erased.depths = b.depths :=
    explore_map Instruction.erased (at?_erased b) (successors_erased b) _ _
  have hpeak : b.erased.peakAt = b.peakAt := by
    funext p depth
    cases depth with
    | none => rfl
    | some d =>
        simp only [peakAt, at?_erased]
        cases b.at? p <;> simp
  rw [computeMaxStack, computeMaxStack, maxDepth, maxDepth, hdepths, hpeak]

/-- So bodies with the same code declare the same maximum. -/
theorem computeMaxStack_of_erased_eq (h : c.erased = b.erased) :
    c.computeMaxStack = b.computeMaxStack := by
  rw [← computeMaxStack_erased, h, computeMaxStack_erased]

/-! ### The result -/

/-- **Canonical branch widths are a canonical form.**  Whatever layout the code is given in, with
whatever widths and offsets, the canonical layout is the same, and so the canonical layout of a
canonical layout is itself.  Nothing but widths and offsets of live instructions is changed, and
neither the answers of the evaluator nor the declared maximum of the stack depend on them. -/
theorem canonicalizeBranches_canonical (b : MethodBody) (hb : b.ArenaValid) :
    (∀ c, b.Relaid c → c.canonicalizeBranches = b.canonicalizeBranches) ∧
      b.canonicalizeBranches.canonicalizeBranches = b.canonicalizeBranches ∧
      b.Relaid b.canonicalizeBranches ∧
      (∀ (memory : Memory) (budget : Nat) (shift : Option Int32) (target : InstrId),
        Evaluator.peekStack ⟨b.canonicalizeBranches, memory, budget, shift⟩ target =
            Evaluator.peekStack ⟨b, memory, budget, shift⟩ target ∧
          ∀ index, Evaluator.resolveLocal ⟨b.canonicalizeBranches, memory, budget, shift⟩ target
              index = Evaluator.resolveLocal ⟨b, memory, budget, shift⟩ target index) ∧
      b.canonicalizeBranches.computeMaxStack = b.computeMaxStack := by
  have hrelaid := relaid_canonicalizeBranches hb
  have hcode : b.canonicalizeBranches.erased = b.erased := hrelaid.erased_eq hb
  refine ⟨fun c hc => hc.canonicalizeBranches_eq hb, hrelaid.canonicalizeBranches_eq hb, hrelaid,
    fun memory budget shift target => ?_, computeMaxStack_of_erased_eq hcode⟩
  exact Evaluator.answers_of_erased_eq (e := ⟨b, memory, budget, shift⟩) hcode target

/-- A branch forward and one back, in stale layout, around a dead slot that holds a third. -/
def windingBody : MethodBody where
  arena := [⟨.branch .br .short, .target ⟨2⟩, 40⟩, ⟨.branch .beq .short, .target ⟨9⟩, 7⟩,
    ⟨.branch .brtrue .long, .target ⟨0⟩, 0⟩, ⟨.ret, .absent, 0⟩]
  order := [⟨0⟩, ⟨2⟩, ⟨3⟩]
  locals := []
  handlers := []
  maxStack := 8
  initLocals := false

/-- The same code, with the widths of both live branches exchanged and other offsets. -/
def rewoundBody : MethodBody :=
  { windingBody with
    arena := [⟨.branch .br .long, .target ⟨2⟩, 0⟩, ⟨.branch .beq .short, .target ⟨9⟩, 7⟩,
      ⟨.branch .brtrue .short, .target ⟨0⟩, 5⟩, ⟨.ret, .absent, 300⟩] }

/-- Both have the canonical layout in which both live branches are narrow, and the dead one has kept
its offset. -/
theorem windingBody_canonical :
    windingBody.ArenaValid ∧ windingBody.Relaid rewoundBody ∧
      rewoundBody.canonicalizeBranches = windingBody.canonicalizeBranches ∧
      windingBody.canonicalizeBranches.arena =
        [⟨.branch .br .short, .target ⟨2⟩, 0⟩, ⟨.branch .beq .short, .target ⟨9⟩, 7⟩,
          ⟨.branch .brtrue .short, .target ⟨0⟩, 2⟩, ⟨.ret, .absent, 4⟩] := by
  have hb : windingBody.ArenaValid := by decide
  have hrelaid : windingBody.Relaid rewoundBody := (relaid_iff hb).mpr (by decide)
  refine ⟨hb, hrelaid, (canonicalizeBranches_canonical windingBody hb).1 _ hrelaid, ?_⟩
  rw [canonicalizeBranches, optimizeBranches, if_neg (by decide), optimizeBranches,
    if_pos (by decide)]
  decide

end MethodBody

end CilRepair
