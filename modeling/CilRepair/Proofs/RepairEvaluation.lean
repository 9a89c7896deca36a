import CilRepair.Proofs.Evaluation
import CilRepair.Proofs.RepairInvariants

/-!
# Repair keeps recovered constants

The evaluator and repair treat a broken branch in ways that were written apart.  The evaluator falls
through a branch whose destination is dead or missing; repair points such a branch at the next
instruction, or makes it a `nop`.  On a run that reaches its target the two agree, because the one
place where they do not is the end of the body, which such a run never falls off.

Repair is followed step by step: `relinked`, a return at the end, further locals, layout.  Each step
keeps known answers (`Evaluator.KeepsKnown`), so their composition does.

* `step_repairOperand` — a repaired instruction makes the same step, and its jump is redirected.
* `keepsKnown_relinked`, `keepsKnown_terminate`, `keepsKnown_declareLocals` — the steps of repair.
* `repair_keeps_known` — the whole.

## Design notes

`Redirected` is weaker than equality of jumps on purpose.  Repair gives a destination to a branch
that had none, and the evaluator, which fell through before, then jumps.  The relation allows that
for the fallback alone, and `nextPosition_redirected` turns it into equality of places.

Known answers are kept and not all answers.  Behind a branch to nowhere at the end the original
falls off, and the repaired body has the branch itself for a destination.  So reasons for unknown
answers do change; a run with a known answer never gets there.

The return needs an identity of its own.  A new instruction with an old identity moves the last
place of that identity to the end, and `crowdedJump_loses_constant` is a jump that follows it there.
-/

namespace CilRepair

open MethodBody Evaluator

/-! ### One instruction -/

section Operand

variable {live : InstrId → Bool} {fallback id : InstrId} {i : Instruction} {memory : Memory}
  {frame next : Frame} {jump : Option InstrId}

/-- **A jump after repair:** revived if it was one, and possibly to the fallback if it was none. -/
def Redirected (live : InstrId → Bool) (fallback : InstrId) (jump jump' : Option InstrId) : Prop :=
  jump' = jump.map (revive live fallback) ∨ (jump = none ∧ jump' = some fallback)

/-- Seeding does not look at destinations: an instruction with another aim seeds the same. -/
theorem seedsLike_of_isAim {operand : Operand} (h : i.operand.IsAim) (h' : operand.IsAim) :
    SeedsLike i { i with operand } := by
  rcases i with ⟨op, old, offset⟩
  refine ⟨?_, ?_, rfl, rfl, Iff.rfl, Iff.rfl⟩
  · rcases h with ⟨_, rfl⟩ | ⟨_, rfl⟩ <;> rcases h' with ⟨_, rfl⟩ | ⟨_, rfl⟩ <;>
      · cases op with
        | ldcI4 form => cases form <;> rfl
        | _ => rfl
  · rcases h with ⟨_, rfl⟩ | ⟨_, rfl⟩ <;> rcases h' with ⟨_, rfl⟩ | ⟨_, rfl⟩ <;>
      · cases op with
        | ldloc form | stloc form => cases form <;> rfl
        | _ => rfl

/-- Repair of an operand does not touch what seeding looks at, which are local numbers and
literals. -/
theorem seedsLike_repairOperand (live : InstrId → Bool) (fallback : InstrId) (i : Instruction) :
    SeedsLike i (repairOperand live fallback i).1 := by
  have hrepair := operandRepair live fallback i
  generalize repairOperand live fallback i = result at hrepair ⊢
  cases hrepair with
  | target hoperand => exact seedsLike_of_isAim (Or.inl ⟨_, hoperand⟩) (Or.inl ⟨_, rfl⟩)
  | table hoperand => exact seedsLike_of_isAim (Or.inr ⟨_, hoperand⟩) (Or.inr ⟨_, rfl⟩)
  | untouched => exact SeedsLike.refl i
  | emptied haim hop | dropped haim hop | aimed haim hop =>
      -- A `switch` or a branch, whatever it names, is none of the instructions that seeding sees.
      rcases i with ⟨op, operand, offset⟩
      cases hop
      exact ⟨rfl, rfl, rfl, rfl, by simp, by simp⟩

/-- Only transfers without a destination change their opcode. -/
theorem opcode_repairOperand (h : i.isBranch = false) :
    (repairOperand live fallback i).1.opcode = i.opcode := by
  have hrepair := operandRepair live fallback i
  generalize repairOperand live fallback i = result at hrepair ⊢
  cases hrepair with
  | dropped haim hop =>
      rw [Instruction.isBranch_of_opcode hop] at h
      exact absurd h (by decide)
  | _ => rfl

/-- The destination of a repaired instruction.  Repair keeps a live one, replaces a dead one, and
adds one to a comparing branch that has none; an instruction that is made a `nop` had none. -/
theorem redirected_branchTarget? (live : InstrId → Bool) (fallback : InstrId) (i : Instruction) :
    Redirected live fallback i.branchTarget? (repairOperand live fallback i).1.branchTarget? := by
  have hrepair := operandRepair live fallback i
  generalize repairOperand live fallback i = result at hrepair ⊢
  cases hrepair with
  | target hoperand | table hoperand =>
      rcases i with ⟨op, operand, offset⟩
      cases hoperand
      exact Or.inl rfl
  | emptied haim | dropped haim =>
      exact Or.inl (by rw [Instruction.branchTarget?_of_not_isAim haim]; rfl)
  | aimed haim => exact Or.inr ⟨Instruction.branchTarget?_of_not_isAim haim, rfl⟩
  | untouched haim => exact Or.inl (by rw [Instruction.branchTarget?_of_not_isAim haim]; rfl)

/-- A comparing branch jumps to the repaired destination whenever it jumped.  The values that it
compares are the same, as is what it leaves on the stack. -/
theorem stepCompare_redirected {onEqual : Bool} {j : Instruction}
    (htarget : Redirected live fallback i.branchTarget? j.branchTarget?)
    (h : stepCompare onEqual id i frame = .ok (next, jump)) :
    ∃ jump', stepCompare onEqual id j frame = .ok (next, jump') ∧
      Redirected live fallback jump jump' := by
  obtain ⟨x, y, rest, hstack, rfl, rfl⟩ := stepCompare_eq_ok_iff.mp h
  refine ⟨_, stepCompare_eq_ok_iff.mpr ⟨x, y, rest, hstack, rfl, rfl⟩, ?_⟩
  split
  · exact htarget
  · exact Or.inl rfl

/-- **A repaired instruction makes the same step,** with its jump redirected.  Of an instruction
that names others only the destination changes; of the rest only branches without one are touched,
and those fell through before. -/
theorem step_repairOperand (live : InstrId → Bool) (fallback : InstrId)
    (h : step memory id i frame = .ok (next, jump)) :
    ∃ jump', step memory id (repairOperand live fallback i).1 frame = .ok (next, jump') ∧
      Redirected live fallback jump jump' := by
  have hlike := seedsLike_repairOperand live fallback i
  have htarget := redirected_branchTarget? live fallback i
  cases hbranch : i.isBranch with
  | false =>
      -- What is no branch keeps its opcode, its literal and its local, and does not jump.
      refine ⟨jump, ?_, ?_⟩
      · rw [step_congr (opcode_repairOperand hbranch) hbranch hlike.literal hlike.slot, h]
      · rw [jump_eq_none_of_step hbranch h]
        exact Or.inl rfl
  | true =>
      obtain ⟨kind, form, hop⟩ := (OpCode.isBranch_iff _).mp hbranch
      rcases i with ⟨op, operand, offset⟩
      obtain rfl : op = .branch kind form := hop
      -- A comparing branch keeps its opcode; the others do nothing to the frame.
      cases kind with
      | beq | bneUn =>
          obtain ⟨jump', hstep, hjump⟩ := stepCompare_redirected htarget h
          refine ⟨jump', ?_, hjump⟩
          rw [← hstep]
          cases operand <;> rfl
      | br =>
          obtain ⟨rfl, rfl⟩ : frame = next ∧ _ := by simpa [step, Instruction.literal?] using h
          refine ⟨_, ?_, htarget⟩
          cases operand <;> rfl
      | _ =>
          obtain ⟨rfl, rfl⟩ : frame = next ∧ none = jump := by
            simpa [step, Instruction.literal?, proceed] using h
          refine ⟨none, ?_, Or.inl rfl⟩
          cases operand <;> rfl

end Operand

/-! ### References -/

namespace MethodBody

variable {b c : MethodBody} {p : Nat} {id : InstrId} {i : Instruction}
  {R : Instruction → Instruction → Prop}

/-- Two bodies with the same sequence hold related instructions if their slots do. -/
theorem forall₂_instructions (horder : c.order = b.order)
    (h : ∀ id ∈ b.order, Option.Rel R (b.get? id) (c.get? id)) :
    List.Forall₂ R b.instructions c.instructions := by
  rw [instructions, instructions, horder]
  exact forall₂_filterMap h

/-- And so do their entries, identities included. -/
theorem forall₂_live (horder : c.order = b.order)
    (h : ∀ id ∈ b.order, Option.Rel R (b.get? id) (c.get? id)) :
    List.Forall₂ (fun x y : InstrId × Instruction => y.1 = x.1 ∧ R x.2 y.2) b.live c.live := by
  rw [live, live, horder]
  refine forall₂_filterMap fun id hid => ?_
  have hrel := h id hid
  generalize b.get? id = i? at hrel ⊢
  generalize c.get? id = j? at hrel ⊢
  cases hrel with
  | none => exact .none
  | some hij => exact .some ⟨rfl, hij⟩

/-- Before the end of the body the fallback is the next place.  A valid sequence names no slot
twice, so that the last place of an identity is its only one. -/
theorem lastPosition?_fallback (hb : b.ArenaValid) (hp : p + 1 < b.length) :
    b.lastPosition? (b.fallback p) = some (p + 1) := by
  obtain ⟨next, hnext⟩ := exists_idAt? hp
  rw [fallback_eq_of_idAt? hnext, lastPosition?_eq_some_iff hb, hnext]

/-- The live instructions with a new one at the end. -/
theorem live_push (hb : b.ArenaValid) (i : Instruction) (hroom : b.arena.length < UInt32.size) :
    (b.push i).live = b.live ++ [(b.fresh, i)] := by
  have hold : ∀ id ∈ b.order, (b.push i).get? id = b.get? id := fun id hid =>
    get?_push_of_lt i (hb.slot_lt id hid)
  rw [live, live, order_push, List.filterMap_append,
    List.filterMap_congr fun id hid => by rw [hold id hid]]
  simp [get?_push_fresh i hroom]

/-- So a new instruction comes last. -/
theorem instructions_push (hb : b.ArenaValid) (i : Instruction)
    (hroom : b.arena.length < UInt32.size) :
    (b.push i).instructions = b.instructions ++ [i] := by
  have hold : ∀ id ∈ b.order, (b.push i).get? id = b.get? id := fun id hid =>
    get?_push_of_lt i (hb.slot_lt id hid)
  rw [instructions, instructions, order_push, List.filterMap_append, List.filterMap_congr hold]
  simp [get?_push_fresh i hroom]

/-- What relinking leaves in the slot of a place.  The fallback is that of the place. -/
theorem get?_relinked (hb : b.ArenaValid) (hid : b.idAt? p = some id) (hi : b.get? id = some i) :
    b.relinked.get? id = some (repairOperand b.isLive (b.fallback p) i).1 := by
  have hid' : b.relinked.idAt? p = some id := by rw [idAt?, order_relinked, ← idAt?, hid]
  rw [← at?_of_idAt? hid']
  exact at?_relinked hb (at?_eq_some_iff.mpr ⟨id, hid, hi⟩)

end MethodBody

namespace Evaluator

variable {e : Evaluator}

/-- **A redirected jump arrives at the same place,** unless the original falls off the end.  A live
destination is kept; a dead one becomes the fallback, which is the next place, where the original
goes as well. -/
theorem nextPosition_redirected {c : MethodBody} (hb : e.body.ArenaValid)
    (horder : c.order = e.body.order) {p : Nat} {jump jump' : Option InstrId}
    (hjump : Redirected e.body.isLive (e.body.fallback p) jump jump')
    (hnext : e.nextPosition p jump < e.body.length) :
    (e.withBody c).nextPosition p jump' = e.nextPosition p jump := by
  have hplace : c.lastPosition? = e.body.lastPosition? := by
    funext id
    rw [MethodBody.lastPosition?, MethodBody.lastPosition?, horder]
  have hfall : p + 1 < e.body.length →
      ((some (e.body.fallback p)).bind e.body.lastPosition?).getD (p + 1) = p + 1 := by
    intro hp
    rw [Option.bind_some, MethodBody.lastPosition?_fallback hb hp, Option.getD_some]
  rw [nextPosition] at hnext
  rw [nextPosition, nextPosition, body_withBody, hplace]
  -- Either the jump was revived, or there was none and the fallback took its place.
  rcases hjump with rfl | ⟨rfl, rfl⟩
  · cases jump with
    | none => rfl
    | some id =>
        by_cases hlive : e.body.isLive id = true
        · rw [Option.map_some, revive_of_live hlive]
        · -- A dead destination: the evaluator goes on, and repair sends the branch there.
          have hdead : e.body.lastPosition? id = none := by
            rw [MethodBody.isLive_iff, ← MethodBody.lastPosition?_isSome_iff hb] at hlive
            simpa using hlive
          rw [Option.bind_some, hdead, Option.getD_none] at hnext ⊢
          rw [Option.map_some, revive, if_neg hlive, hfall hnext]
  · exact hfall hnext

/-- Relinking matches steps: instructions seed the same, and a step ends at the same place. -/
theorem stepsMatch_relinked (hb : e.body.ArenaValid) :
    StepsMatch e (e.withBody e.body.relinked) where
  budget := rfl
  order := by
    rw [body_withBody, MethodBody.order_relinked]
  steps p id i frame next jump hid hi hstep := by
    obtain ⟨jump', hstep', hjump⟩ :=
      step_repairOperand e.body.isLive (e.body.fallback p) hstep
    exact ⟨_, jump', MethodBody.get?_relinked hb hid hi, hstep',
      nextPosition_redirected hb (MethodBody.order_relinked _) hjump⟩

/-- **Repaired references keep known answers.**  Locals and budget are the same, and a run that
arrives at its target stays inside the body. -/
theorem keepsKnown_relinked (hb : e.body.ArenaValid) :
    KeepsKnown e (e.withBody e.body.relinked) := by
  have hlike : ∀ id ∈ e.body.order,
      Option.Rel SeedsLike (e.body.get? id) (e.body.relinked.get? id) := by
    intro id hid
    obtain ⟨p, hp⟩ := MethodBody.mem_order_iff.mp hid
    obtain ⟨i, hi⟩ := hb.exists_get? hid
    rw [MethodBody.get?_relinked hb hp hi, hi]
    exact .some (seedsLike_repairOperand _ _ i)
  have horder := e.body.order_relinked
  have hzero : e.zeroLocals <+: (e.withBody e.body.relinked).zeroLocals := by
    rw [zeroLocals, zeroLocals, body_withBody, MethodBody.locals_relinked]
  exact (stepsMatch_relinked hb).keepsKnown hzero fun target => prefix_seededLocals hzero
    (offsetLocal?_congr (MethodBody.forall₂_instructions horder hlike))
    (seedStores_congr (MethodBody.forall₂_live horder hlike) rfl)

/-! ### A return at the end -/

/-- A jump that finds its destination finds it behind a new instruction at the end as well.
References have to be resolved, or a dead one could be the identity of the new instruction. -/
theorem stepsMatch_push_ret (hb : e.body.ArenaValid)
    (hroom : e.body.arena.length < UInt32.size) (hresolved : e.body.Resolved) :
    StepsMatch e (e.withBody (e.body.push .ret)) where
  budget := rfl
  order := List.prefix_append _ _
  steps p id i frame next jump hid hi hstep := by
    have hslot := hb.slot_lt id (MethodBody.mem_order_iff.mpr ⟨p, hid⟩)
    refine ⟨i, jump, ?_, hstep, fun _ => ?_⟩
    · rw [body_withBody, MethodBody.get?_push_of_lt _ hslot, hi]
    · rw [nextPosition, nextPosition, body_withBody]
      cases jump with
      | none => rfl
      | some destination =>
          -- The destination is live, so that it is not the identity of the new instruction.
          have hlive : destination ∈ e.body.order :=
            (hresolved.settled p i (MethodBody.at?_eq_some_iff.mpr ⟨id, hid, hi⟩)).targets_live
              _ (mem_targets_of_step hstep)
          obtain ⟨q, hq⟩ := MethodBody.mem_order_iff.mp hlive
          have hq' : (e.body.push .ret).idAt? q = some destination := by
            rw [MethodBody.idAt?_push_of_lt _ (MethodBody.idAt?_lt hq), hq]
          rw [Option.bind_some, Option.bind_some,
            (MethodBody.lastPosition?_eq_some_iff hb).mpr hq,
            (MethodBody.lastPosition?_eq_some_iff (hb.push hroom _)).mpr hq']

/-- **A closed body keeps known answers,** if no reference could be taken for the new return.  If
the body ends terminal nothing is appended, and no identity is needed. -/
theorem keepsKnown_terminate (hb : e.body.ArenaValid) (hresolved : e.body.Resolved)
    (hroom : e.body.endsTerminal = true ∨ e.body.arena.length < UInt32.size) :
    KeepsKnown e (e.withBody e.body.terminate.1) := by
  by_cases hend : e.body.endsTerminal = true
  · rw [MethodBody.terminate_of_endsTerminal hend]
    exact ⟨fun _ _ h => h, fun _ _ _ h => h⟩
  · have hroom := hroom.resolve_left hend
    rw [MethodBody.terminate_of_not_endsTerminal hend]
    have hzero : e.zeroLocals <+: (e.withBody (e.body.push .ret)).zeroLocals :=
      List.prefix_refl _
    refine (stepsMatch_push_ret hb hroom hresolved).keepsKnown hzero fun target =>
      prefix_seededLocals hzero ?_ fun locals => ?_
    · rw [MethodBody.instructions_push hb _ hroom, offsetLocal?_append_ret]
    · rw [MethodBody.live_push hb _ hroom, seedStores_append_ret]

/-! ### Further locals -/

/-- **Further locals keep known answers.**  A run starts with more zeros, and a run with a known
answer touches none of them. -/
theorem keepsKnown_declareLocals (e : Evaluator) :
    KeepsKnown e (e.withBody e.body.declareLocals.1) := by
  have hzero : e.zeroLocals <+: (e.withBody e.body.declareLocals.1).zeroLocals := by
    rw [zeroLocals, zeroLocals, body_withBody, MethodBody.length_locals_declareLocals]
    exact List.prefix_replicate_iff.mpr ⟨by simp, by simp⟩
  refine StepsMatch.keepsKnown ⟨rfl, List.prefix_refl _, ?_⟩ hzero fun target =>
    prefix_seededLocals hzero rfl fun _ => rfl
  exact fun p id i frame next jump _ hi hstep => ⟨i, jump, hi, hstep, fun _ => rfl⟩

/-! ### Repair as a whole -/

/-- The steps of repair in a row. -/
theorem keepsKnown_repair (hb : e.body.ArenaValid)
    (hroom : e.body.relinked.endsTerminal = true ∨ e.body.arena.length < UInt32.size) :
    KeepsKnown e (e.withBody e.body.repair.1) := by
  have hrelinked : KeepsKnown e (e.withBody e.body.relinked) := keepsKnown_relinked hb
  have hterminate : KeepsKnown (e.withBody e.body.relinked)
      (e.withBody e.body.relinked.terminate.1) :=
    keepsKnown_terminate (e := e.withBody e.body.relinked) hb.relinked
      (MethodBody.resolved_relinked hb) (by simpa using hroom)
  have hdeclare : KeepsKnown (e.withBody e.body.relinked.terminate.1)
      (e.withBody e.body.repair.1) :=
    keepsKnown_declareLocals (e.withBody e.body.relinked.terminate.1)
  exact (hrelinked.trans hterminate).trans hdeclare

/-- **Repair never changes a recovered constant.**  Whatever the memory, the budget and the shift of
a query: if its answer is known on a body, it is known and the same on the repaired body, with and
without canonical branch widths.  As for the invariants, a return needs an identity that is left. -/
theorem repair_keeps_known (e : Evaluator) (hb : e.body.ArenaValid)
    (hroom : e.body.repair.2.appendedReturns = 0 ∨ e.body.arena.length < UInt32.size) :
    ∀ b, b = e.body.repair.1 ∨ b = e.body.repairAndLayOut.1 →
      (∀ target v, e.peekStack target = .known v →
        (e.withBody b).peekStack target = .known v) ∧
      (∀ target index v, e.resolveLocal target index = .known v →
        (e.withBody b).resolveLocal target index = .known v) := by
  have hrepair : KeepsKnown e (e.withBody e.body.repair.1) :=
    keepsKnown_repair hb (MethodBody.endsTerminal_or_room hroom)
  rintro b (rfl | rfl)
  · exact ⟨hrepair.peekStack, hrepair.resolveLocal⟩
  · have hlayout : KeepsKnown (e.withBody e.body.repair.1)
        (e.withBody e.body.repairAndLayOut.1) :=
      keepsKnown_of_erased_eq (e := e.withBody e.body.repair.1) e.body.erased_repairAndLayOut
    have hboth := hrepair.trans hlayout
    exact ⟨hboth.peekStack, hboth.resolveLocal⟩

/-- A constant that is stored, and loaded again behind a branch to nowhere.  The body is open at its
end and uses a local that it does not declare. -/
def brokenLoad : Evaluator where
  body :=
    { arena := [⟨.ldcI4 .short, .immediate (.int8 3), 0⟩, ⟨.stloc .short, .slot 0, 0⟩,
        ⟨.branch .br .long, .target ⟨9⟩, 0⟩, ⟨.ldloc .short, .slot 0, 0⟩,
        ⟨.stloc .short, .slot 3, 0⟩]
      order := [⟨0⟩, ⟨1⟩, ⟨2⟩, ⟨3⟩, ⟨4⟩]
      locals := [⟨none, .i4⟩]
      handlers := []
      maxStack := 8
      initLocals := true }
  memory := []
  budget := 100
  offsetShift := some defaultOffsetShift

/-- The constant is known before, and repair, which has three things to do, does not lose it: the
branch to nowhere is sent to the next place, where the evaluator went. -/
theorem brokenLoad_keeps_known :
    brokenLoad.body.ArenaValid ∧
      brokenLoad.body.repair.2 =
        { retargetedBranches := 1, appendedReturns := 1, addedLocals := 3 } ∧
      brokenLoad.peekStack ⟨4⟩ = .known 3 ∧ brokenLoad.resolveLocal ⟨4⟩ 0 = .known 3 ∧
      (brokenLoad.withBody brokenLoad.body.repair.1).peekStack ⟨4⟩ = .known 3 ∧
      (brokenLoad.withBody brokenLoad.body.repairAndLayOut.1).resolveLocal ⟨4⟩ 0 = .known 3 := by
  have hkeep := repair_keeps_known brokenLoad (by decide) (Or.inr (by decide))
  have hstack : brokenLoad.peekStack ⟨4⟩ = .known 3 := by decide
  have hlocal : brokenLoad.resolveLocal ⟨4⟩ 0 = .known 3 := by decide
  exact ⟨by decide, by decide, hstack, hlocal, (hkeep _ (Or.inl rfl)).1 ⟨4⟩ 3 hstack,
    (hkeep _ (Or.inr rfl)).2 ⟨4⟩ 0 3 hlocal⟩

/-- A constant behind a jump over nothing, in a body whose next identity is that of the jump's
destination. -/
def crowdedJump : Evaluator where
  body := crowded [.shortestLiteral 3, .of (.branch .br .short) (.target ⟨2⟩), .nop, .nop]
    [⟨0⟩, ⟨1⟩, ⟨2⟩, ⟨3⟩] 4294967294
  memory := []
  budget := 100
  offsetShift := none

theorem repair_crowdedJump : crowdedJump.body.repair.1 =
    { crowdedJump.body with
      arena := crowdedJump.body.arena ++ [.ret]
      order := [⟨0⟩, ⟨1⟩, ⟨2⟩, ⟨3⟩, ⟨2⟩] } := by
  have hrelinked : crowdedJump.body.relinked = crowdedJump.body := rfl
  have hfresh : crowdedJump.body.fresh = ⟨2⟩ := fresh_crowded (n := 2) rfl
  rw [repair_fst, hrelinked, terminate_of_not_endsTerminal (by decide), push, hfresh]
  rfl

/-- **Without an identity for the return a constant can be lost.**  The return takes the identity of
the jump's destination, a jump goes to the last place of an identity, and so it now skips the
target. -/
theorem crowdedJump_loses_constant :
    crowdedJump.body.arenaFault? = none ∧ ⟨3⟩ ∈ crowdedJump.body.order ∧
      crowdedJump.peekStack ⟨3⟩ = .known 3 ∧
      (crowdedJump.withBody crowdedJump.body.repair.1).peekStack ⟨3⟩ = .unknown .notReached := by
  have hvalid : crowdedJump.body.ArenaValid := arenaValid_crowded (by decide) (by decide)
  refine ⟨arenaFault?_eq_none_iff.mpr hvalid, by decide, rfl, ?_⟩
  rw [repair_crowdedJump]
  rfl

end Evaluator

end CilRepair
