import CilRepair.Body.References
import CilRepair.Proofs.Evaluation
import CilRepair.Proofs.Thinning

/-!
# References after a remapping

A remapping replaces what instructions and handlers name, and nothing else.  It is stated here at
slots and places, and for the one consumer that looks at references while it runs, the evaluator.

* `Instruction.mapTargets` — an instruction with what it names replaced; all else is kept.
* `MethodBody.get?_remap` — what a remapping leaves in a live slot.
* `MethodBody.references_remap` — the references of a remapped body are the remapped references.
* `step_mapTargets` — a step of a remapped instruction is the step with its jump remapped.

## Design notes

`mapTargets` is the effect of a remapping on one instruction with the look-up left open, so that the
lemmas about it serve every function on identities: remappings of padding, replacements of one
instruction, and substitutions by any list of pairs.  Each projection of an instruction has a `simp`
lemma, and a proof about a remapped body never opens an operand.

The evaluator needs one lemma only.  It reads targets after it has decided whether to jump, so that
a remapped step is the step, followed by a change of where it goes.
-/

namespace CilRepair

namespace Instruction

/-- An instruction with every instruction that it names replaced. -/
def mapTargets (f : InstrId → InstrId) (i : Instruction) : Instruction :=
  { i with operand := i.operand.mapTargets f }

variable (f : InstrId → InstrId) (i : Instruction)

@[simp] theorem opcode_mapTargets : (i.mapTargets f).opcode = i.opcode := rfl

@[simp] theorem operand_mapTargets : (i.mapTargets f).operand = i.operand.mapTargets f := rfl

@[simp] theorem targets_mapTargets : (i.mapTargets f).targets = i.targets.map f :=
  i.operand.targets_mapTargets f

@[simp] theorem isNop_mapTargets : (i.mapTargets f).isNop = i.isNop := rfl

@[simp] theorem isBranch_mapTargets : (i.mapTargets f).isBranch = i.isBranch := rfl

@[simp] theorem isTerminal_mapTargets : (i.mapTargets f).isTerminal = i.isTerminal := rfl

/-- What a branch is aimed at is replaced, -/
@[simp] theorem branchTarget?_mapTargets :
    (i.mapTargets f).branchTarget? = i.branchTarget?.map f := by
  rcases i with ⟨op, operand, offset⟩
  cases operand <;> rfl

/-- and literals and locals are no targets. -/
@[simp] theorem literal?_mapTargets : (i.mapTargets f).literal? = i.literal? := by
  rcases i with ⟨op, operand, offset⟩
  cases op with
  | ldcI4 form => cases form <;> cases operand <;> rfl
  | _ => rfl

@[simp] theorem local?_mapTargets : (i.mapTargets f).local? = i.local? := by
  rcases i with ⟨op, operand, offset⟩
  cases op with
  | ldloc form | stloc form => cases form <;> cases operand <;> rfl
  | ldlocaS => cases operand <;> rfl
  | _ => rfl

/-- A table keeps its length, and the size of nothing else depends on what is named. -/
@[simp] theorem size_mapTargets : (i.mapTargets f).size = i.size := by
  rcases i with ⟨op, operand, offset⟩
  cases operand with
  | switch ids => simp [mapTargets, Operand.mapTargets, size, operandSize]
  | _ => rfl

end Instruction

/-! ### Remapped bodies -/

namespace MethodBody

variable {b : MethodBody} {id : InstrId} {i : Instruction} (m : Remapping)

@[simp] theorem order_remap (b : MethodBody) : (b.remap m).1.order = b.order := rfl

@[simp] theorem locals_remap (b : MethodBody) : (b.remap m).1.locals = b.locals := rfl

@[simp] theorem handlers_remap (b : MethodBody) :
    (b.remap m).1.handlers = b.handlers.map (·.mapBoundaries m.apply) := rfl

@[simp] theorem idAt?_remap (b : MethodBody) (p : Nat) : (b.remap m).1.idAt? p = b.idAt? p := rfl

@[simp] theorem length_arena_remap (b : MethodBody) :
    (b.remap m).1.arena.length = b.arena.length :=
  length_arena_sweep (remapStep m) 0 b

theorem thins_remap (b : MethodBody) : b.Thins (b.remap m).1 :=
  ⟨List.Sublist.refl _, length_arena_remap m b⟩

/-- Removal of padding is a remapping, and some identities less. -/
theorem thins_removeNops (b : MethodBody) : b.Thins b.removeNops.1 :=
  (thins_remap (redirects b.live).1 b).trans (thins_removeWhere _ _)

/-- What stands at a place is the instruction that stood there, with its targets replaced. -/
theorem at?_remap (hb : b.ArenaValid) (p : Nat) :
    (b.remap m).1.at? p = (b.at? p).map (·.mapTargets m.apply) :=
  at?_sweep_eq_map (remapStep m) 0 hb p

/-- **What a remapping leaves in a live slot.**  A dead slot is not visited and keeps what it
named. -/
theorem get?_remap (hb : b.ArenaValid) (hid : id ∈ b.order) :
    (b.remap m).1.get? id = (b.get? id).map (·.mapTargets m.apply) := by
  obtain ⟨p, hp⟩ := mem_order_iff.mp hid
  have hp' : (b.remap m).1.idAt? p = some id := hp
  rw [← at?_of_idAt? hp', at?_remap m hb, at?_of_idAt? hp]

theorem instructions_remap (hb : b.ArenaValid) :
    (b.remap m).1.instructions = b.instructions.map (·.mapTargets m.apply) := by
  rw [instructions, instructions, order_remap, List.map_filterMap]
  exact List.filterMap_congr fun id hid => get?_remap m hb hid

/-- **The references of a remapped body are the remapped references,** those of instructions first
and then those of handlers. -/
theorem references_remap (hb : b.ArenaValid) :
    (b.remap m).1.references = b.references.map m.apply := by
  simp only [references, instructions_remap m hb, handlers_remap, List.map_append,
    List.map_flatMap, List.flatMap_map, Instruction.targets_mapTargets,
    ExceptionHandler.boundaries_mapBoundaries]

/-- What a live instruction names is a reference, -/
theorem mem_references_of_instruction (hi : i ∈ b.instructions) {target : InstrId}
    (htarget : target ∈ i.targets) : target ∈ b.references :=
  List.mem_append_left _ (List.mem_flatMap.mpr ⟨i, hi, htarget⟩)

/-- also when it is found by its identity, -/
theorem mem_references_of_target (hid : id ∈ b.order) (hi : b.get? id = some i) {target : InstrId}
    (htarget : target ∈ i.targets) : target ∈ b.references :=
  mem_references_of_instruction (List.mem_filterMap.mpr ⟨id, hid, hi⟩) htarget

/-- and so is every boundary of a handler. -/
theorem mem_references_of_boundary {h : ExceptionHandler} (hh : h ∈ b.handlers)
    (hid : id ∈ h.boundaries) : id ∈ b.references :=
  List.mem_append_right _ (List.mem_flatMap.mpr ⟨h, hh, hid⟩)

end MethodBody

/-! ### Remapped steps -/

section Step

variable (f : InstrId → InstrId) (memory : Memory) (id : InstrId) (i : Instruction)

/-- What a step leaves, with its jump replaced. -/
def mapJump (result : StepResult) : StepResult :=
  result.map fun (next, jump) => (next, jump.map f)

@[simp] theorem mapJump_error (reason : UnknownReason) :
    mapJump f (.error reason) = .error reason := rfl

@[simp] theorem mapJump_ok (next : Frame) (jump : Option InstrId) :
    mapJump f (.ok (next, jump)) = .ok (next, jump.map f) := rfl

/-- A comparison decides on the stack alone whether to jump. -/
theorem stepCompare_mapTargets (onEqual : Bool) (frame : Frame) :
    stepCompare onEqual id (i.mapTargets f) frame = mapJump f (stepCompare onEqual id i frame) := by
  rcases frame with ⟨_ | ⟨x, _ | ⟨y, rest⟩⟩, locals⟩
  · rfl
  · rfl
  · simp only [stepCompare, mapJump_ok, Instruction.branchTarget?_mapTargets]
    cases decide (y = x) == onEqual <;> rfl

/-- **A step of a remapped instruction** is the step of the instruction, with its jump remapped.
What it does to the frame and how it fails do not depend on targets. -/
theorem step_mapTargets (frame : Frame) :
    step memory id (i.mapTargets f) frame = mapJump f (step memory id i frame) := by
  cases hbranch : i.isBranch with
  | false =>
      -- What is no branch steps alike, and there is no jump to remap.
      rw [step_congr (i.opcode_mapTargets f) hbranch (i.literal?_mapTargets f)
        (i.local?_mapTargets f)]
      cases hstep : step memory id i frame with
      | error reason => rfl
      | ok result =>
          obtain ⟨next, jump⟩ := result
          rw [mapJump_ok, jump_eq_none_of_step hbranch hstep, Option.map_none]
  | true =>
      obtain ⟨kind, form, hop⟩ := (OpCode.isBranch_iff _).mp hbranch
      have hliteral : i.literal? = none := by simp [Instruction.literal?, hop]
      simp only [step, Instruction.literal?_mapTargets, hliteral, Instruction.opcode_mapTargets,
        hop]
      cases kind with
      | br => simp only [Instruction.branchTarget?_mapTargets, mapJump_ok]
      | beq | bneUn => exact stepCompare_mapTargets f id i _ frame
      | _ => rfl

end Step

end CilRepair
