import CilRepair.Proofs.Soundness

/-!
# The four steps of repair

One law for each step: what it leaves, and that its report is empty exactly when it had nothing to
do.

* `OperandRepair` — everything that can happen to one instruction.  Whatever is proved about
  `repairOperand` goes by these cases and not by opcodes.
* `repairOperand` settles an instruction, and an empty report says that it was settled before.
* `repairTargets` does so at each place; the instruction at a place falls back on the next one.
* `repairHandlers` keeps handlers that are in order, with live boundaries.
* `terminate` and `declareLocals` close the body and its frame of locals.

Each law about an empty report has two halves.  That nothing to do gives an empty report is what
makes repair idempotent; the converse is what makes its report worth reading.

## Design notes

`OperandRepair` is the inversion of `repairOperand`: one constructor for each outcome, with the
instruction and the report together.  The three laws about an operand then look at the outcomes and
never at the order in which the function asks its questions, and a new opcode that behaves like an
old one changes none of them.

The laws about a whole body say what is left at a place, by `at?`, and what the report is.  Nothing
here speaks of positions in the arena; the passes take care of those.
-/

namespace CilRepair

namespace RepairReport

variable {r s : RepairReport}

/-- Nothing changed exactly if every count is zero. -/
theorem changed_eq_false_iff : r.changed = false ↔ r = {} := by
  simp [changed]

/-- A sum of counts is empty only if both parts are. -/
theorem add_eq_empty_iff : r + s = {} ↔ r = {} ∧ s = {} := by
  rcases r with ⟨r₁, r₂, r₃, r₄, r₅, r₆, r₇⟩
  rcases s with ⟨s₁, s₂, s₃, s₄, s₅, s₆, s₇⟩
  change RepairReport.add _ _ = _ ↔ _
  simp only [add, mk.injEq, Nat.add_eq_zero_iff]
  tauto

end RepairReport

namespace MethodBody

/-! ### One operand -/

section Operand

variable {live : InstrId → Bool} {fallback id : InstrId} {ids : List InstrId} {i : Instruction}

/-- A live identity is kept. -/
theorem revive_of_live (h : live id = true) : revive live fallback id = id := if_pos h

/-- Whatever the identity was, what stands in its place is live, if the fallback is. -/
theorem live_revive (hfallback : live fallback = true) (id : InstrId) :
    live (revive live fallback id) = true := by
  unfold revive
  split
  · assumption
  · exact hfallback

/-- No dead identity is counted exactly if all of them are live. -/
theorem deadCount_eq_zero_iff : deadCount live ids = 0 ↔ ∀ id ∈ ids, live id = true := by
  simp [deadCount, List.countP_eq_zero]

/-- A table of live targets is left as it is. -/
theorem map_revive_of_live (h : ∀ id ∈ ids, live id = true) :
    ids.map (revive live fallback) = ids := by
  conv_rhs => rw [← List.map_id ids]
  exact List.map_congr_left fun id hid => revive_of_live (h id hid)

/-- **What repair does to an instruction,** case by case.  A `br` or `leave` that names nothing has
nowhere to go and is dropped; any other branch is aimed at the fallback. -/
inductive OperandRepair (live : InstrId → Bool) (fallback : InstrId) (i : Instruction) :
    Instruction × RepairReport → Prop
  | target {id : InstrId} (hoperand : i.operand = .target id) :
      OperandRepair live fallback i
        ({ i with operand := .target (revive live fallback id) },
          { retargetedBranches := deadCount live [id] })
  | table {ids : List InstrId} (hoperand : i.operand = .switch ids) :
      OperandRepair live fallback i
        ({ i with operand := .switch (ids.map (revive live fallback)) },
          { retargetedSwitchTargets := deadCount live ids })
  | emptied (haim : ¬ i.operand.IsAim) (hop : i.opcode = .switch) :
      OperandRepair live fallback i ({ i with operand := .switch [] }, { degradedBranches := 1 })
  | dropped {kind : BranchKind} {form : BranchForm} (haim : ¬ i.operand.IsAim)
      (hop : i.opcode = .branch kind form) (hkind : kind = .br ∨ kind = .leave) :
      OperandRepair live fallback i
        ({ i with opcode := .nop, operand := .absent }, { degradedBranches := 1 })
  | aimed {kind : BranchKind} {form : BranchForm} (haim : ¬ i.operand.IsAim)
      (hop : i.opcode = .branch kind form) (hkind : ¬ (kind = .br ∨ kind = .leave)) :
      OperandRepair live fallback i
        ({ i with operand := .target fallback }, { retargetedBranches := 1 })
  | untouched (haim : ¬ i.operand.IsAim) (hop : ¬ (i.isBranch = true ∨ i.isSwitch = true)) :
      OperandRepair live fallback i (i, {})

/-- The cases are all there are.  The proof follows the function: the operand is looked at first,
and only an operand that aims at nothing brings the opcode in. -/
theorem operandRepair (live : InstrId → Bool) (fallback : InstrId) (i : Instruction) :
    OperandRepair live fallback i (repairOperand live fallback i) := by
  unfold repairOperand
  split
  · next id hoperand => exact .target hoperand
  · next ids hoperand => exact .table hoperand
  · next htarget hswitch =>
      have haim : ¬ i.operand.IsAim := by
        rintro (⟨id, hoperand⟩ | ⟨ids, hoperand⟩)
        · exact htarget id hoperand
        · exact hswitch ids hoperand
      split
      · next hop => exact .emptied haim hop
      · next hop => exact .dropped haim hop (Or.inl rfl)
      · next hop => exact .dropped haim hop (Or.inr rfl)
      · next kind form hbr hleave hop =>
          refine .aimed haim hop ?_
          rintro (rfl | rfl)
          · exact hbr rfl
          · exact hleave rfl
      · next hnotSwitch _ _ hnotBranch =>
          refine .untouched haim ?_
          rintro (hbranch | hswitch)
          · obtain ⟨kind, form, hop⟩ := (OpCode.isBranch_iff _).mp hbranch
            exact hnotBranch kind form hop
          · exact hnotSwitch (eq_of_beq hswitch)

/-- What repair does not touch was settled: it is no branch and names nothing, and so there is
nothing to be live. -/
theorem settled_of_untouched {live : InstrId → Prop} (haim : ¬ i.operand.IsAim)
    (hop : ¬ (i.isBranch = true ∨ i.isSwitch = true)) : i.Settled live where
  targets_live id hid := by
    rw [Instruction.targets_of_not_isAim haim] at hid
    exact absurd hid List.not_mem_nil
  aimed h := absurd h hop

/-- A settled instruction is left as it is, and nothing is reported.  This half makes repair
idempotent. -/
theorem repairOperand_of_settled (h : i.Settled (live · = true)) :
    repairOperand live fallback i = (i, {}) := by
  have hrepair := operandRepair live fallback i
  generalize repairOperand live fallback i = result at hrepair ⊢
  cases hrepair with
  | @target id hoperand =>
      have hlive : ∀ x ∈ [id], live x = true :=
        Instruction.targets_of_target hoperand ▸ h.targets_live
      rw [revive_of_live (hlive id (List.mem_singleton.mpr rfl)), ← hoperand,
        deadCount_eq_zero_iff.mpr hlive]
  | table hoperand =>
      have hlive := Instruction.targets_of_switch hoperand ▸ h.targets_live
      rw [map_revive_of_live hlive, ← hoperand, deadCount_eq_zero_iff.mpr hlive]
  | emptied haim hop => exact absurd (h.aimed (Or.inr (Instruction.isSwitch_of_opcode hop))) haim
  | dropped haim hop | aimed haim hop =>
      exact absurd (h.aimed (Or.inl (Instruction.isBranch_of_opcode hop))) haim
  | untouched => rfl

/-- **A repaired instruction is settled.**  The fallback has to be live, which it is at every place
of a sequence that is not empty. -/
theorem settled_repairOperand (hfallback : live fallback = true) (i : Instruction) :
    (repairOperand live fallback i).1.Settled (live · = true) := by
  have hrepair := operandRepair live fallback i
  generalize repairOperand live fallback i = result at hrepair ⊢
  cases hrepair with
  | target =>
      refine ⟨fun x hx => ?_, fun _ => Or.inl ⟨_, rfl⟩⟩
      rw [List.mem_singleton.mp hx]
      exact live_revive hfallback _
  | table =>
      refine ⟨fun x hx => ?_, fun _ => Or.inr ⟨_, rfl⟩⟩
      obtain ⟨id, -, rfl⟩ := List.mem_map.mp hx
      exact live_revive hfallback id
  | emptied => exact ⟨fun _ hx => absurd hx List.not_mem_nil, fun _ => Or.inr ⟨[], rfl⟩⟩
  | dropped => exact ⟨fun _ hx => absurd hx List.not_mem_nil, fun h => absurd h (by
      simp [Instruction.isBranch, Instruction.isSwitch, OpCode.isBranch_iff])⟩
  | aimed =>
      refine ⟨fun x hx => ?_, fun _ => Or.inl ⟨fallback, rfl⟩⟩
      rw [List.mem_singleton.mp hx]
      exact hfallback
  | untouched haim hop => exact settled_of_untouched haim hop

/-- **An empty report tells the truth:** the instruction was settled before.  The cases that change
something count at least one, and the others say that there was nothing dead to count. -/
theorem settled_of_repairOperand_report (h : (repairOperand live fallback i).2 = {}) :
    i.Settled (live · = true) := by
  have hrepair := operandRepair live fallback i
  generalize repairOperand live fallback i = result at hrepair h
  cases hrepair with
  | @target id hoperand =>
      have hzero : deadCount live [id] = 0 := congrArg RepairReport.retargetedBranches h
      refine ⟨?_, fun _ => Or.inl ⟨id, hoperand⟩⟩
      rw [Instruction.targets_of_target hoperand]
      exact deadCount_eq_zero_iff.mp hzero
  | @table ids hoperand =>
      have hzero : deadCount live ids = 0 := congrArg RepairReport.retargetedSwitchTargets h
      refine ⟨?_, fun _ => Or.inr ⟨ids, hoperand⟩⟩
      rw [Instruction.targets_of_switch hoperand]
      exact deadCount_eq_zero_iff.mp hzero
  | emptied | dropped | aimed => exact absurd h (by simp)
  | untouched haim hop => exact settled_of_untouched haim hop

end Operand

/-! ### Every operand -/

variable {b : MethodBody} {p : Nat} {id : InstrId} {i : Instruction}

/-- The identity that the instruction at a place falls back on: the next one, or the last one if
there is no next. -/
def fallback (b : MethodBody) (p : Nat) : InstrId :=
  (b.idAt? (p + 1)).getD (b.last?.getD ⟨0⟩)

/-- Before the last place it is the next identity. -/
theorem fallback_eq_of_idAt? (h : b.idAt? (p + 1) = some id) : b.fallback p = id := by
  rw [fallback, h, Option.getD_some]

/-- The fallback of a place is live: the sequence has a place, and so it has a last identity. -/
theorem isLive_fallback (hp : p < b.length) : b.isLive (b.fallback p) = true := by
  rw [isLive_iff, fallback]
  cases hnext : b.idAt? (p + 1) with
  | some id => exact mem_order_iff.mpr ⟨p + 1, hnext⟩
  | none =>
      obtain ⟨id, hid⟩ := exists_idAt? (show b.length - 1 < b.length by omega)
      rw [last?_eq_idAt?, hid]
      exact mem_order_iff.mpr ⟨b.length - 1, hid⟩

theorem exists_last? (hp : p < b.length) : ∃ last, b.last? = some last := by
  rw [last?_eq_idAt?]
  exact exists_idAt? (by omega)

/-- The step that the pass takes at a place.  The rest of the order that the pass hands on is what
stands behind the place, and its head is the fallback. -/
theorem repairStep_eq {last : InstrId} (hlast : b.last? = some last) (r : RepairReport)
    (i : Instruction) :
    repairStep b.isLive last r (b.order.drop (p + 1)) i =
      ((repairOperand b.isLive (b.fallback p) i).1,
        r + (repairOperand b.isLive (b.fallback p) i).2) := by
  have hhead : (b.order.drop (p + 1)).head?.getD last = b.fallback p := by
    rw [fallback, hlast, List.head?_drop]
    rfl
  simp only [repairStep, hhead]

/-- In a sequence with a last identity the repair of operands is one pass. -/
theorem repairTargets_eq_sweep {last : InstrId} (hlast : b.last? = some last) :
    b.repairTargets = b.sweep (repairStep b.isLive last) {} := by
  rw [repairTargets, hlast]

@[simp] theorem order_repairTargets (b : MethodBody) : b.repairTargets.1.order = b.order := by
  unfold repairTargets
  split <;> rfl

@[simp] theorem locals_repairTargets (b : MethodBody) :
    b.repairTargets.1.locals = b.locals := by
  unfold repairTargets
  split <;> rfl

@[simp] theorem handlers_repairTargets (b : MethodBody) :
    b.repairTargets.1.handlers = b.handlers := by
  unfold repairTargets
  split <;> rfl

@[simp] theorem length_arena_repairTargets (b : MethodBody) :
    b.repairTargets.1.arena.length = b.arena.length := by
  unfold repairTargets
  split <;> simp

@[simp] theorem length_repairTargets (b : MethodBody) : b.repairTargets.1.length = b.length := by
  rw [length, length, order_repairTargets]

theorem ArenaValid.repairTargets (hb : b.ArenaValid) : b.repairTargets.1.ArenaValid where
  slot_lt := by simpa using hb.slot_lt
  nodup := by simpa using hb.nodup

/-- **What is left at a place** once every operand is repaired. -/
theorem at?_repairTargets (hb : b.ArenaValid) (hi : b.at? p = some i) :
    b.repairTargets.1.at? p = some (repairOperand b.isLive (b.fallback p) i).1 := by
  obtain ⟨last, hlast⟩ := exists_last? (at?_lt hi)
  rw [repairTargets_eq_sweep hlast, at?_sweep _ _ hb hi, repairStep_eq hlast]

/-- Every instruction after the pass is the repair of the one that stood at its place. -/
theorem exists_of_at?_repairTargets (hb : b.ArenaValid) {j : Instruction}
    (hj : b.repairTargets.1.at? p = some j) :
    ∃ i, b.at? p = some i ∧ j = (repairOperand b.isLive (b.fallback p) i).1 := by
  have hp : p < b.length := by simpa using at?_lt hj
  obtain ⟨i, hi⟩ := hb.exists_at? hp
  rw [at?_repairTargets hb hi] at hj
  exact ⟨i, hi, (Option.some.inj hj).symm⟩

/-- **The report on operands is empty exactly if every instruction is settled.**  A sum of reports
is empty only if each of them is, which is why the report of a pass can be read place by place. -/
theorem repairTargets_report_iff (hb : b.ArenaValid) :
    b.repairTargets.2 = {} ↔ ∀ p i, b.at? p = some i → i.Settled (b.isLive · = true) := by
  cases hlast : b.last? with
  | none =>
      have hnil : b.order = [] := List.getLast?_eq_none_iff.mp hlast
      have hnone : ∀ p, b.at? p = none := fun p => by simp [at?, idAt?, hnil]
      simp [repairTargets, hlast, hnone]
  | some last =>
      rw [repairTargets_eq_sweep hlast]
      refine sweep_snd_eq_iff _ hb fun r p i _ => ?_
      rw [repairStep_eq hlast, RepairReport.add_eq_empty_iff]
      exact and_congr_right fun _ =>
        ⟨settled_of_repairOperand_report, fun h => by rw [repairOperand_of_settled h]⟩

/-- A body whose instructions are settled is left as it is: no step of the pass changes the arena,
and none adds to the report. -/
theorem repairTargets_of_settled (hb : b.ArenaValid)
    (h : ∀ p i, b.at? p = some i → i.Settled (b.isLive · = true)) :
    b.repairTargets = (b, {}) := by
  refine Prod.ext ?_ ((repairTargets_report_iff hb).mpr h)
  cases hlast : b.last? with
  | none => simp [repairTargets, hlast]
  | some last =>
      rw [repairTargets_eq_sweep hlast]
      refine sweep_eq_self _ _ hb fun p i hi => ?_
      rw [repairStep_eq hlast, repairOperand_of_settled (h p i hi)]

/-! ### Handlers -/

/-- A handler with live boundaries is left as it is.  A missing boundary is not counted as a dead
one and stays missing. -/
theorem reviveBoundaries_of_live {live : InstrId → Bool} {first last : InstrId}
    {h : ExceptionHandler} (hlive : ∀ id ∈ h.boundaries, live id = true) :
    reviveBoundaries live first last h = h := by
  rcases h with ⟨flags, tryStart, tryEnd, handlerStart, handlerEnd, filterStart, catchType⟩
  simp only [ExceptionHandler.boundaries, List.mem_append, List.mem_cons, List.not_mem_nil,
    or_false, Option.mem_toList] at hlive
  have hrevive : ∀ fallback, ∀ o : Option InstrId, (∀ id ∈ o, live id = true) →
      o.map (revive live fallback) = o := by
    intro fallback o ho
    cases o with
    | none => rfl
    | some id => exact congrArg some (revive_of_live (ho id rfl))
  simp only [reviveBoundaries, revive_of_live (hlive tryStart (by simp)),
    revive_of_live (hlive tryEnd (by simp)), revive_of_live (hlive handlerStart (by simp)),
    hrevive _ handlerEnd fun id hid => hlive id (by simp_all),
    hrevive _ filterStart fun id hid => hlive id (by simp_all)]

theorem map_reviveBoundaries_of_live {live : InstrId → Bool} {first last : InstrId}
    {handlers : List ExceptionHandler}
    (hlive : ∀ h ∈ handlers, ∀ id ∈ h.boundaries, live id = true) :
    handlers.map (reviveBoundaries live first last) = handlers := by
  conv_rhs => rw [← List.map_id handlers]
  exact List.map_congr_left fun h hh => reviveBoundaries_of_live (hlive h hh)

/-- The two outcomes of the step: all handlers dropped, or those kept that are in order.  Only an
empty sequence drops them unseen, for there is no first or last instruction to put in place of a
boundary. -/
theorem repairHandlers_cases (b : MethodBody) :
    (b.order = [] ∧ b.repairHandlers =
      ({ b with handlers := [] }, { droppedHandlers := b.handlers.length })) ∨
    ∃ first last, ∃ kept, b.first? = some first ∧ b.last? = some last ∧
      kept = (b.handlers.map (reviveBoundaries b.isLive first last)).filter b.isWellOrdered ∧
      b.repairHandlers = ({ b with handlers := kept },
        { repairedBoundaries := deadCount b.isLive (b.handlers.flatMap (·.boundaries))
          droppedHandlers := b.handlers.length - kept.length }) := by
  by_cases hnil : b.order = []
  · exact Or.inl ⟨hnil, by simp [repairHandlers, first?, hnil]⟩
  · obtain ⟨first, hfirst⟩ : ∃ first, b.first? = some first :=
      ⟨_, List.head?_eq_some_head hnil⟩
    obtain ⟨last, hlast⟩ : ∃ last, b.last? = some last :=
      ⟨_, List.getLast?_eq_some_getLast hnil⟩
    exact Or.inr ⟨first, last, _, hfirst, hlast, rfl, by rw [repairHandlers, hfirst, hlast]⟩

@[simp] theorem order_repairHandlers (b : MethodBody) :
    b.repairHandlers.1.order = b.order := by
  rcases b.repairHandlers_cases with ⟨-, h⟩ | ⟨_, _, _, -, -, -, h⟩ <;> rw [h]

@[simp] theorem arena_repairHandlers (b : MethodBody) :
    b.repairHandlers.1.arena = b.arena := by
  rcases b.repairHandlers_cases with ⟨-, h⟩ | ⟨_, _, _, -, -, -, h⟩ <;> rw [h]

@[simp] theorem locals_repairHandlers (b : MethodBody) :
    b.repairHandlers.1.locals = b.locals := by
  rcases b.repairHandlers_cases with ⟨-, h⟩ | ⟨_, _, _, -, -, -, h⟩ <;> rw [h]

@[simp] theorem at?_repairHandlers (b : MethodBody) (p : Nat) :
    b.repairHandlers.1.at? p = b.at? p := by
  simp only [at?, idAt?, order_repairHandlers]
  congr 1
  funext id
  rw [get?, get?, arena_repairHandlers]

@[simp] theorem length_repairHandlers (b : MethodBody) :
    b.repairHandlers.1.length = b.length := by
  rw [length, length, order_repairHandlers]

theorem ArenaValid.repairHandlers (hb : b.ArenaValid) : b.repairHandlers.1.ArenaValid where
  slot_lt := by simpa using hb.slot_lt
  nodup := by simpa using hb.nodup

/-- **Every handler that is kept is in order,** with its filter live.  Boundaries are revived before
handlers are tested, so that what is tested is what is kept. -/
theorem ordered_of_mem_repairHandlers (hb : b.ArenaValid) {h : ExceptionHandler}
    (hh : h ∈ b.repairHandlers.1.handlers) :
    b.Ordered h ∧ ∀ id ∈ h.filterStart, id ∈ b.order := by
  rcases b.repairHandlers_cases with ⟨-, heq⟩ | ⟨_, _, kept, -, -, hkept, heq⟩
  · rw [heq] at hh
    exact absurd hh (List.not_mem_nil)
  · rw [heq] at hh
    have hmem : h ∈ kept := hh
    rw [hkept] at hmem
    exact (isWellOrdered_iff hb).mp (List.mem_filter.mp hmem).2

/-- **Handlers whose boundaries are live** are only tested: those in order are kept as they are.
This is the case after a stage that moves references, and the idempotent case is one of it. -/
theorem repairHandlers_of_live
    (hlive : ∀ h ∈ b.handlers, ∀ id ∈ h.boundaries, b.isLive id = true) :
    b.repairHandlers = ({ b with handlers := b.handlers.filter b.isWellOrdered },
      { droppedHandlers := b.handlers.length - (b.handlers.filter b.isWellOrdered).length }) := by
  have hdead : deadCount b.isLive (b.handlers.flatMap (·.boundaries)) = 0 := by
    rw [deadCount_eq_zero_iff]
    intro id hid
    obtain ⟨h, hh, hid⟩ := List.mem_flatMap.mp hid
    exact hlive h hh id hid
  rcases b.repairHandlers_cases with ⟨hnil, heq⟩ | ⟨first, last, kept, -, -, hkept, heq⟩
  · -- In a body without instructions no boundary is live, so that there are no handlers to drop.
    have hnone : b.handlers = [] := by
      rw [List.eq_nil_iff_forall_not_mem]
      intro h hh
      have hmem := isLive_iff.mp (hlive h hh h.tryStart h.tryStart_mem_boundaries)
      rw [hnil] at hmem
      exact absurd hmem List.not_mem_nil
    rw [heq, hnone, List.filter_nil, List.length_nil]
  · rw [map_reviveBoundaries_of_live hlive] at hkept
    rw [heq, hdead, hkept]

/-- Handlers in order are left as they are, for being in order means to have live boundaries. -/
theorem repairHandlers_of_ordered (hb : b.ArenaValid)
    (hall : ∀ h ∈ b.handlers, b.Ordered h ∧ ∀ id ∈ h.filterStart, id ∈ b.order) :
    b.repairHandlers = (b, {}) := by
  have hlive : ∀ h ∈ b.handlers, ∀ id ∈ h.boundaries, b.isLive id = true := fun h hh id hid =>
    isLive_iff.mpr ((hall h hh).1.boundaries_live (hall h hh).2 id hid)
  have hkeep : b.handlers.filter b.isWellOrdered = b.handlers :=
    List.filter_eq_self.mpr fun h hh => (isWellOrdered_iff hb).mpr (hall h hh)
  rw [repairHandlers_of_live hlive, hkeep, Nat.sub_self]

/-- **The report on handlers is empty exactly if each is in order,** with its filter live.  One
count is for boundaries that were dead, the other for handlers that were dropped; both must be
zero. -/
theorem repairHandlers_report_iff (hb : b.ArenaValid) :
    b.repairHandlers.2 = {} ↔
      ∀ h ∈ b.handlers, b.Ordered h ∧ ∀ id ∈ h.filterStart, id ∈ b.order := by
  refine ⟨fun hreport => ?_, fun hall => by rw [repairHandlers_of_ordered hb hall]⟩
  rcases b.repairHandlers_cases with ⟨-, heq⟩ | ⟨first, last, kept, -, -, hkept, heq⟩
  · rw [heq] at hreport
    have hlen : b.handlers.length = 0 := congrArg RepairReport.droppedHandlers hreport
    rw [List.length_eq_zero_iff.mp hlen]
    exact fun h hh => absurd hh List.not_mem_nil
  · rw [heq] at hreport
    have hdead : deadCount b.isLive (b.handlers.flatMap (·.boundaries)) = 0 :=
      congrArg RepairReport.repairedBoundaries hreport
    have hdropped : b.handlers.length - kept.length = 0 :=
      congrArg RepairReport.droppedHandlers hreport
    -- Live boundaries are not replaced, and a filter that shortens nothing keeps everything.
    have hlive : ∀ h ∈ b.handlers, ∀ id ∈ h.boundaries, b.isLive id = true := fun h hh id hid =>
      deadCount_eq_zero_iff.mp hdead id (List.mem_flatMap.mpr ⟨h, hh, hid⟩)
    rw [map_reviveBoundaries_of_live hlive] at hkept
    have hall : ∀ h ∈ b.handlers, b.isWellOrdered h = true := by
      rw [← List.length_filter_eq_length_iff, ← hkept]
      have hle : kept.length ≤ b.handlers.length := hkept ▸ List.length_filter_le _ _
      omega
    exact fun h hh => (isWellOrdered_iff hb).mp (hall h hh)

/-! ### End and locals -/

theorem terminate_of_endsTerminal (h : b.endsTerminal = true) : b.terminate = (b, {}) := if_pos h

theorem terminate_of_not_endsTerminal (h : ¬ b.endsTerminal = true) :
    b.terminate = (b.push .ret, { appendedReturns := 1 }) := if_neg h

/-- A return is reported exactly if it was needed. -/
theorem terminate_report_iff : b.terminate.2 = {} ↔ b.endsTerminal = true := by
  by_cases h : b.endsTerminal = true
  · rw [terminate_of_endsTerminal h]
    exact ⟨fun _ => h, fun _ => rfl⟩
  · rw [terminate_of_not_endsTerminal h]
    simp [h]

/-- The greatest of some numbers is bounded if each of them is. -/
theorem foldl_max_le_iff {ns : List Nat} {m n : Nat} :
    ns.foldl max m ≤ n ↔ m ≤ n ∧ ∀ k ∈ ns, k ≤ n := by
  induction ns generalizing m with
  | nil => simp
  | cons k ns ih =>
      rw [List.foldl_cons, ih, Nat.max_le, List.forall_mem_cons, and_assoc]

/-- The locals that are needed are those up to the highest one in use by a live instruction. -/
theorem requiredLocals_le_iff {n : Nat} :
    b.requiredLocals ≤ n ↔
      ∀ p i, b.at? p = some i → ∀ index, i.local? = some index → index.toNat < n := by
  simp only [requiredLocals, foldl_max_le_iff, Nat.zero_le, true_and, List.mem_map,
    List.mem_filterMap, mem_instructions_iff]
  constructor
  · exact fun h p i hi index hindex => h _ ⟨index, ⟨i, ⟨p, hi⟩, hindex⟩, rfl⟩
  · rintro h k ⟨index, ⟨i, ⟨p, hi⟩, hindex⟩, rfl⟩
    exact h p i hi index hindex

@[simp] theorem at?_declareLocals (b : MethodBody) (p : Nat) :
    b.declareLocals.1.at? p = b.at? p := rfl

/-- Locals are added at the end until there are enough, and none is taken away. -/
theorem length_locals_declareLocals (b : MethodBody) :
    b.declareLocals.1.locals.length = max b.locals.length b.requiredLocals := by
  simp only [declareLocals, List.length_append, List.length_replicate]
  omega

/-- **The report on locals is empty exactly if every local in use is declared.** -/
theorem declareLocals_report_iff :
    b.declareLocals.2 = {} ↔
      ∀ p i, b.at? p = some i → ∀ index, i.local? = some index →
        index.toNat < b.locals.length := by
  rw [← requiredLocals_le_iff, ← Nat.sub_eq_zero_iff_le]
  constructor
  · exact fun h => congrArg RepairReport.addedLocals h
  · intro h
    simp only [declareLocals, h]

theorem declareLocals_of_declared (h : b.requiredLocals ≤ b.locals.length) :
    b.declareLocals = (b, {}) := by
  simp [declareLocals, Nat.sub_eq_zero_of_le h]

end MethodBody

end CilRepair
