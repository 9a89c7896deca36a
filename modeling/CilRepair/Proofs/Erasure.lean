import CilRepair.Body.Layout
import CilRepair.Proofs.Passes

/-!
# Code without its layout

Layout decides two things about an instruction, its offset and the width of its branch, and nothing
else.  `erased` forgets both: every branch is wide and every offset zero.  Two bodies hold the same
code when their erasures are equal, and a statement about code is one that `erased` leaves alone.

* `MethodBody.erased` — a body without its layout.
* `MethodBody.erased_sweep` — a pass whose steps keep the code keeps the code of the body.
* `MethodBody.erased_canonicalizeBranches` — layout is invisible after erasure.
* `MethodBody.exists_at?_of_erased_eq` — bodies with the same code agree, place by place.

## Design notes

Having the same code is stated as an equation of two erasures and not as a relation of its own.  It
is then an equivalence for free, it is rewritten with, and what does not depend on layout is carried
from one body to the other by going through `erased`.

Dead slots are erased too.  That keeps `erased` a map over the arena, so that looking up and erasing
commute, and it costs nothing, since no pass over live code can tell.
-/

namespace CilRepair

namespace OpCode

@[simp] theorem isBranch_branch (kind : BranchKind) (form : BranchForm) :
    (branch kind form).isBranch = true :=
  (isBranch_iff _).mpr ⟨kind, form, rfl⟩

@[simp] theorem flow_toLong (op : OpCode) : op.toLong.flow = op.flow := by
  cases op with
  | branch kind form => cases kind <;> rfl
  | _ => rfl

@[simp] theorem isBranch_toLong (op : OpCode) : op.toLong.isBranch = op.isBranch := by
  cases op with
  | branch kind form => rw [toLong, isBranch_branch, isBranch_branch]
  | _ => rfl

end OpCode

namespace Instruction

/-- An instruction without its layout. -/
def erased (i : Instruction) : Instruction := { i with opcode := i.opcode.toLong, offset := 0 }

variable (i : Instruction)

@[simp] theorem erased_opcode : i.erased.opcode = i.opcode.toLong := rfl

@[simp] theorem erased_operand : i.erased.operand = i.operand := rfl

@[simp] theorem targets_erased : i.erased.targets = i.targets := rfl

@[simp] theorem branchTarget?_erased : i.erased.branchTarget? = i.branchTarget? := rfl

@[simp] theorem isTerminal_erased : i.erased.isTerminal = i.isTerminal := by
  simp [isTerminal]

@[simp] theorem isBranch_erased : i.erased.isBranch = i.isBranch := by
  simp [isBranch]

@[simp] theorem isSwitch_erased : i.erased.isSwitch = i.isSwitch := by
  rcases i with ⟨op, operand, offset⟩
  cases op <;> rfl

@[simp] theorem local?_erased : i.erased.local? = i.local? := by
  rcases i with ⟨op, operand, offset⟩
  cases op <;> rfl

@[simp] theorem literal?_erased : i.erased.literal? = i.literal? := by
  rcases i with ⟨op, operand, offset⟩
  cases op <;> rfl

@[simp] theorem isLoadLocal_toLong : i.opcode.toLong.isLoadLocal = i.opcode.isLoadLocal := by
  cases i.opcode <;> rfl

@[simp] theorem isStoreLocal_toLong : i.opcode.toLong.isStoreLocal = i.opcode.isStoreLocal := by
  cases i.opcode <;> rfl

end Instruction

namespace MethodBody

/-- **A body without its layout.** -/
def erased (b : MethodBody) : MethodBody := { b with arena := b.arena.map Instruction.erased }

variable {b c : MethodBody} {p : Nat} {i : Instruction}

@[simp] theorem order_erased (b : MethodBody) : b.erased.order = b.order := rfl

@[simp] theorem locals_erased (b : MethodBody) : b.erased.locals = b.locals := rfl

@[simp] theorem handlers_erased (b : MethodBody) : b.erased.handlers = b.handlers := rfl

@[simp] theorem length_erased (b : MethodBody) : b.erased.length = b.length := rfl

@[simp] theorem idAt?_erased (b : MethodBody) (p : Nat) : b.erased.idAt? p = b.idAt? p := rfl

@[simp] theorem lastPosition?_erased (b : MethodBody) (id : InstrId) :
    b.erased.lastPosition? id = b.lastPosition? id := rfl

@[simp] theorem isLive_erased (b : MethodBody) (id : InstrId) :
    b.erased.isLive id = b.isLive id := rfl

@[simp] theorem get?_erased (b : MethodBody) (id : InstrId) :
    b.erased.get? id = (b.get? id).map Instruction.erased :=
  List.getElem?_map

@[simp] theorem at?_erased (b : MethodBody) (p : Nat) :
    b.erased.at? p = (b.at? p).map Instruction.erased := by
  simp only [at?, idAt?_erased]
  cases b.idAt? p with
  | none => rfl
  | some id => exact get?_erased b id

@[simp] theorem instructions_erased (b : MethodBody) :
    b.erased.instructions = b.instructions.map Instruction.erased := by
  simp only [instructions, order_erased, List.map_filterMap]
  exact congrArg (List.filterMap · b.order) (funext (get?_erased b))

@[simp] theorem live_erased (b : MethodBody) :
    b.erased.live = b.live.map fun x => (x.1, x.2.erased) := by
  simp only [live, order_erased, List.map_filterMap]
  refine congrArg (List.filterMap · b.order) (funext fun id => ?_)
  rw [get?_erased, Option.map_map, Option.map_map]
  rfl

/-- Validity speaks of identities and of the number of slots, and layout has no part in it. -/
theorem arenaValid_erased : b.erased.ArenaValid ↔ b.ArenaValid := by
  constructor
  · exact fun h => ⟨by simpa [erased] using h.slot_lt, h.nodup⟩
  · exact fun h => ⟨by simpa [erased] using h.slot_lt, h.nodup⟩

/-- Erasing touches the arena only, so that bodies with the same code have the same sequence. -/
theorem order_of_erased_eq (h : c.erased = b.erased) : c.order = b.order := by
  rw [← order_erased, h, order_erased]

theorem locals_of_erased_eq (h : c.erased = b.erased) : c.locals = b.locals := by
  rw [← locals_erased, h, locals_erased]

theorem handlers_of_erased_eq (h : c.erased = b.erased) : c.handlers = b.handlers := by
  rw [← handlers_erased, h, handlers_erased]

/-- Bodies with the same code agree, place by place: where one has an instruction the other has one
that differs at most in width and offset. -/
theorem exists_at?_of_erased_eq (h : c.erased = b.erased) (hi : b.at? p = some i) :
    ∃ j, c.at? p = some j ∧ j.erased = i.erased := by
  have hmap : (c.at? p).map Instruction.erased = (b.at? p).map Instruction.erased := by
    rw [← at?_erased, ← at?_erased, h]
  rw [hi, Option.map_some, Option.map_eq_some_iff] at hmap
  exact hmap

/-! ### Layout is invisible after erasure -/

/-- A pass whose steps change only the layout of an instruction leaves the code as it is, whatever
it carries along from step to step. -/
theorem erased_sweep {σ : Type} (f : σ → List InstrId → Instruction → Instruction × σ) (s : σ)
    (hstep : ∀ s rest i, (f s rest i).1.erased = i.erased) (b : MethodBody) :
    (b.sweep f s).1.erased = b.erased :=
  congrArg (fun arena => { b with arena }) (map_sweep f Instruction.erased hstep b.order b.arena s)

/-- Offsets are forgotten, so new ones do not show. -/
@[simp] theorem erased_updateOffsets (b : MethodBody) : b.updateOffsets.erased = b.erased :=
  erased_sweep placeAt 0 (fun _ _ _ => rfl) b

/-- Widths are forgotten, so wide branches do not show. -/
@[simp] theorem erased_simplifyBranches (b : MethodBody) :
    b.simplifyBranches.erased = b.erased := by
  refine erased_sweep widen () (fun _ _ i => ?_) b
  simp [widen, Instruction.erased]

/-- Nor do narrow ones, whichever of them a round narrows. -/
theorem erased_narrowRound (b : MethodBody) : b.narrowRound.1.erased = b.erased := by
  refine erased_sweep b.narrowStep 0 (fun n rest i => ?_) b
  rw [narrowStep]
  split
  · simp [Instruction.erased]
  · rfl

/-- By induction on the rounds: each is invisible, and so are all of them. -/
@[simp] theorem erased_optimizeBranches (b : MethodBody) :
    b.optimizeBranches.erased = b.erased := by
  induction b using optimizeBranches.induct with
  | case1 b h =>
      rw [optimizeBranches, if_pos h, erased_updateOffsets]
  | case2 b h ih =>
      rw [optimizeBranches, if_neg h, ih, erased_narrowRound, erased_updateOffsets]

/-- **Canonical branch widths leave the code as it is.**  What a stage proves about code it need not
prove again after layout. -/
theorem erased_canonicalizeBranches (b : MethodBody) :
    b.canonicalizeBranches.erased = b.erased := by
  rw [canonicalizeBranches, erased_optimizeBranches, erased_simplifyBranches]

end MethodBody

end CilRepair
