import CilRepair.Body.Sweep

/-!
# Layout

Offsets and the width of branches. A branch may use the narrow form if its displacement, counted
from the end of the narrow branch, fits a signed byte.

## Main definitions

* `MethodBody.assignOffsets`: each live instruction at the sum of the sizes before it.
* `MethodBody.simplifyBranches`: every live branch in its wide form.
* `MethodBody.optimizeBranches`: rounds of narrowing until no wide branch fits the narrow form. Each
  narrowed branch brings others closer to their targets, and there are only so many wide branches to
  narrow, which is why the rounds end.
-/

namespace CilRepair

/-- The instruction is a branch in its wide form. -/
def Instruction.isWide (i : Instruction) : Bool := i.opcode.toShort != i.opcode

namespace MethodBody

/-! ### Offsets -/

/-- An instruction placed at an offset, and the offset after it. -/
def placeAt (offset : Nat) (_ : List InstrId) (i : Instruction) : Instruction × Nat :=
  ({ i with offset := UInt32.ofNat offset }, offset + i.size)

/-- **The body with its offsets, and the size of its code.** -/
def assignOffsets (b : MethodBody) : MethodBody × UInt32 :=
  let (b, size) := b.sweep placeAt 0
  (b, UInt32.ofNat size)

/-- The body with its offsets. -/
def updateOffsets (b : MethodBody) : MethodBody := b.assignOffsets.1

/-! ### Width of branches -/

/-- A branch in its wide form. -/
def widen (s : Unit) (_ : List InstrId) (i : Instruction) : Instruction × Unit :=
  ({ i with opcode := i.opcode.toLong }, s)

/-- **Every live branch in its wide form.** -/
def simplifyBranches (b : MethodBody) : MethodBody := (b.sweep widen ()).1

/-- The displacement that a wide branch at a place would have in its narrow form. The target moves
up with the three bytes that are saved if it lies behind the branch. -/
def narrowDisplacement? (b : MethodBody) (position : Nat) (i : Instruction) : Option Int :=
  match i.branchTarget? with
  | none => none
  | some target =>
    match b.lastPosition? target, b.get? target with
    | some targetPosition, some destination =>
      let moved : Int := if position < targetPosition then 3 else 0
      some ((destination.offset.toNat : Int) - moved - (i.offset.toNat + (i.size - 3 : Int)))
    | _, _ => none

/-- A displacement fits a signed byte. -/
def fitsByte (displacement : Int) : Bool := -128 ≤ displacement && displacement ≤ 127

/-- A wide branch can be narrowed as the offsets stand. -/
def canNarrow (b : MethodBody) (position : Nat) (i : Instruction) : Bool :=
  i.isWide && (b.narrowDisplacement? position i).any fitsByte

/-- One step of a round: the state counts the narrowed branches. -/
def narrowStep (b : MethodBody) (narrowed : Nat) (rest : List InstrId) (i : Instruction) :
    Instruction × Nat :=
  if b.canNarrow (b.length - rest.length - 1) i then
    ({ i with opcode := i.opcode.toShort }, narrowed + 1)
  else (i, narrowed)

/-- A round over a body whose offsets are up to date, and the number of branches it narrowed. -/
def narrowRound (b : MethodBody) : MethodBody × Nat :=
  b.sweep b.narrowStep 0

/-- The number of slots that hold a wide branch. -/
def wideCount (b : MethodBody) : Nat := b.arena.countP Instruction.isWide

theorem isWide_narrowStep (b : MethodBody) (narrowed : Nat) (rest : List InstrId)
    (i : Instruction) :
    (b.narrowStep narrowed rest i).1.isWide.toNat + (b.narrowStep narrowed rest i).2
      = i.isWide.toNat + narrowed := by
  unfold narrowStep
  split
  · next h =>
    have hw : i.isWide = true := by
      unfold canNarrow at h
      simp_all
    have hn : Instruction.isWide { i with opcode := i.opcode.toShort } = false := by
      cases i.opcode <;> simp [Instruction.isWide, OpCode.toShort]
    simp only [hw, hn, Bool.toNat_true, Bool.toNat_false]
    omega
  · rfl

/-- A round takes as many wide branches as it narrows. -/
theorem wideCount_narrowRound (b : MethodBody) :
    b.narrowRound.1.wideCount + b.narrowRound.2 = b.wideCount := by
  have := sweep_conserves b.narrowStep Instruction.isWide id (isWide_narrowStep b)
    b.order b.arena 0
  simpa [narrowRound, wideCount, MethodBody.sweep] using this

/-- Offsets do not change widths. -/
theorem wideCount_updateOffsets (b : MethodBody) : b.updateOffsets.wideCount = b.wideCount := by
  have := sweep_conserves placeAt Instruction.isWide (fun _ => 0) (fun _ _ _ => rfl)
    b.order b.arena 0
  simpa [updateOffsets, assignOffsets, wideCount, MethodBody.sweep] using this

/-- **Narrowing, round after round, until a round finds nothing to narrow.** The offsets are brought
up to date before each round. -/
def optimizeBranches (b : MethodBody) : MethodBody :=
  if b.updateOffsets.narrowRound.2 = 0 then b.updateOffsets
  else optimizeBranches b.updateOffsets.narrowRound.1
termination_by b.wideCount
decreasing_by
  have h₁ := wideCount_narrowRound b.updateOffsets
  have h₂ := wideCount_updateOffsets b
  omega

/-- The canonical width of every branch: wide everywhere, then narrowed where possible. -/
def canonicalizeBranches (b : MethodBody) : MethodBody := b.simplifyBranches.optimizeBranches

end MethodBody

end CilRepair
