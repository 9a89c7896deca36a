import CilRepair.Body.Edit
import CilRepair.Body.Layout

/-!
# Repair

Repair makes every reference of a body live, orders its handlers, ends it with a terminal
instruction and declares its locals, and reports what it had to change.

## Main definitions

* `RepairReport`: the counts of the seven kinds of repair.
* `MethodBody.repairTargets`, `repairHandlers`, `terminate`, `declareLocals`: the four steps.
* `MethodBody.repair`: all of them.
* `MethodBody.repairAndLayOut`: repair, and canonical branch widths if anything was repaired.

A dead branch target moves to the instruction after the branch, which makes the branch fall through.
A branch that has no target at all cannot be given a meaning that keeps control: if it never falls
through it becomes a `nop`.
-/

namespace CilRepair

/-- The counts of the seven kinds of repair. -/
structure RepairReport where
  retargetedBranches : Nat := 0
  retargetedSwitchTargets : Nat := 0
  degradedBranches : Nat := 0
  repairedBoundaries : Nat := 0
  droppedHandlers : Nat := 0
  appendedReturns : Nat := 0
  addedLocals : Nat := 0
  deriving DecidableEq

namespace RepairReport

/-- Something was repaired. -/
def changed (r : RepairReport) : Bool := r != {}

/-- The counts of two reports added. -/
def add (r s : RepairReport) : RepairReport where
  retargetedBranches := r.retargetedBranches + s.retargetedBranches
  retargetedSwitchTargets := r.retargetedSwitchTargets + s.retargetedSwitchTargets
  degradedBranches := r.degradedBranches + s.degradedBranches
  repairedBoundaries := r.repairedBoundaries + s.repairedBoundaries
  droppedHandlers := r.droppedHandlers + s.droppedHandlers
  appendedReturns := r.appendedReturns + s.appendedReturns
  addedLocals := r.addedLocals + s.addedLocals

instance : Add RepairReport := ⟨add⟩

/-- The counts in one line. -/
def text (r : RepairReport) : String :=
  natText r.retargetedBranches ++ " branches, "
    ++ natText r.retargetedSwitchTargets ++ " switch targets, "
    ++ natText r.degradedBranches ++ " degraded, "
    ++ natText r.repairedBoundaries ++ " boundaries, "
    ++ natText r.droppedHandlers ++ " handlers dropped, "
    ++ natText r.appendedReturns ++ " returns, "
    ++ natText r.addedLocals ++ " locals"

end RepairReport

namespace MethodBody

/-! ### Targets -/

/-- An identity, or its replacement if it is dead. -/
def revive (live : InstrId → Bool) (fallback id : InstrId) : InstrId :=
  if live id then id else fallback

/-- The number of dead identities in a list. -/
def deadCount (live : InstrId → Bool) (ids : List InstrId) : Nat := ids.countP fun id => !live id

/-- **An instruction with its operand repaired,** and the report of it. The fallback is the next
instruction of the sequence. -/
def repairOperand (live : InstrId → Bool) (fallback : InstrId) (i : Instruction) :
    Instruction × RepairReport :=
  match i.operand with
  | .target id =>
    ({ i with operand := .target (revive live fallback id) },
      { retargetedBranches := deadCount live [id] })
  | .switch ids =>
    ({ i with operand := .switch (ids.map (revive live fallback)) },
      { retargetedSwitchTargets := deadCount live ids })
  | _ =>
    match i.opcode with
    | .switch => ({ i with operand := .switch [] }, { degradedBranches := 1 })
    | .branch .br _ | .branch .leave _ =>
      ({ i with opcode := .nop, operand := .absent }, { degradedBranches := 1 })
    | .branch _ _ => ({ i with operand := .target fallback }, { retargetedBranches := 1 })
    | _ => (i, {})

/-- One step of the pass over the sequence. The last instruction falls back on itself. -/
def repairStep (live : InstrId → Bool) (last : InstrId) (report : RepairReport)
    (rest : List InstrId) (i : Instruction) : Instruction × RepairReport :=
  let (i, found) := repairOperand live (rest.head?.getD last) i
  (i, report + found)

/-- Every operand repaired. -/
def repairTargets (b : MethodBody) : MethodBody × RepairReport :=
  match b.last? with
  | none => (b, {})
  | some last => b.sweep (repairStep b.isLive last) {}

/-! ### Handlers -/

/-- **A handler with its dead boundaries replaced.** The protected range falls back on the whole
body, and the handler on the end of the range as it is after that. -/
def reviveBoundaries (live : InstrId → Bool) (first last : InstrId) (h : ExceptionHandler) :
    ExceptionHandler :=
  let tryEnd := revive live last h.tryEnd
  { h with
    tryStart := revive live first h.tryStart
    tryEnd
    handlerStart := revive live tryEnd h.handlerStart
    handlerEnd := h.handlerEnd.map (revive live last)
    filterStart := h.filterStart.map (revive live tryEnd) }

/-- **The ranges of a handler are in order:** a protected range that is not empty, then a handler
that is not empty, with every boundary in the sequence. -/
def isWellOrdered (b : MethodBody) (h : ExceptionHandler) : Bool :=
  match b.lastPosition? h.tryStart, b.lastPosition? h.tryEnd, b.lastPosition? h.handlerStart with
  | some tryStart, some tryEnd, some handlerStart =>
    let handlerEnd? := match h.handlerEnd with
      | some id => b.lastPosition? id
      | none => some b.length
    match handlerEnd? with
    | some handlerEnd =>
      h.filterStart.all (fun id => (b.lastPosition? id).isSome)
        && decide (tryStart < tryEnd) && decide (tryEnd ≤ handlerStart)
        && decide (handlerStart < handlerEnd)
    | none => false
  | _, _, _ => false

/-- Every handler repaired, and those that are still out of order dropped. -/
def repairHandlers (b : MethodBody) : MethodBody × RepairReport :=
  match b.first?, b.last? with
  | some first, some last =>
    let kept := (b.handlers.map (reviveBoundaries b.isLive first last)).filter b.isWellOrdered
    ({ b with handlers := kept },
      { repairedBoundaries := deadCount b.isLive (b.handlers.flatMap (·.boundaries))
        droppedHandlers := b.handlers.length - kept.length })
  | _, _ => ({ b with handlers := [] }, { droppedHandlers := b.handlers.length })

/-! ### End and locals -/

/-- A return at the end, unless control cannot fall off it. -/
def terminate (b : MethodBody) : MethodBody × RepairReport :=
  if b.endsTerminal then (b, {}) else (b.push .ret, { appendedReturns := 1 })

/-- The number of locals that the live instructions need. -/
def requiredLocals (b : MethodBody) : Nat :=
  ((b.instructions.filterMap Instruction.local?).map fun index => index.toNat + 1).foldl max 0

/-- Locals declared, as objects, up to the highest one in use. -/
def declareLocals (b : MethodBody) : MethodBody × RepairReport :=
  let missing := b.requiredLocals - b.locals.length
  ({ b with locals := b.locals ++ List.replicate missing ⟨none, .object⟩ },
    { addedLocals := missing })

/-! ### The whole -/

/-- **A body repaired, and the report of it.** -/
def repair (b : MethodBody) : MethodBody × RepairReport :=
  let (b, targets) := b.repairTargets
  let (b, handlers) := b.repairHandlers
  let (b, returns) := b.terminate
  let (b, locals) := b.declareLocals
  (b, targets + handlers + returns + locals)

/-- A body repaired, with canonical branch widths if anything was repaired. -/
def repairAndLayOut (b : MethodBody) : MethodBody × RepairReport :=
  let (repaired, report) := b.repair
  (if report.changed then repaired.canonicalizeBranches else repaired, report)

end MethodBody

end CilRepair
