import CilRepair.Body.Edit
import CilRepair.Body.Layout
import CilRepair.Error

/-!
# Assembling

A body built call by call, with labels for the instructions that are jumped to. A label stands for
the next instruction that is emitted; labels are resolved when the body is finished, so that a
branch may go forward.

## Main definitions

* `Assembler.Call`: what an assembler can be asked to do.
* `Assembler.perform`: one call, an action that may fail after it has changed the state.
* `Assembler.attempt`: its outcome and the state that it leaves.
* `Assembler.finish`: the finished body, with its labels resolved and its offsets computed.
* `Instruction.loadLocal`, `storeLocal`, `loadArgument`: the shortest access to a slot.
-/

namespace CilRepair

namespace Instruction

/-- An access to a slot in the shortest form that can name it. -/
def shortestAccess (family : SlotForm → OpCode) (operand : UInt16 → Operand) (index : UInt16) :
    Instruction :=
  if h : index.toNat < 4 then bare (family (.fixed ⟨index.toNat, h⟩))
  else if index.toNat < 256 then of (family .short) (operand index)
  else of (family .long) (operand index)

/-- The shortest instruction that reads a local. -/
def loadLocal (index : UInt16) : Instruction := shortestAccess .ldloc .slot index

/-- The shortest instruction that writes a local. -/
def storeLocal (index : UInt16) : Instruction := shortestAccess .stloc .slot index

/-- The shortest instruction that reads an argument. -/
def loadArgument (index : UInt16) : Instruction := shortestAccess .ldarg .argument index

end Instruction

/-- A handler whose boundaries are labels. -/
structure HandlerSpec where
  flags : HandlerFlags
  tryStart : String
  tryEnd : String
  handlerStart : String
  handlerEnd : Option String
  filterStart : Option String
  catchType : Option String
  deriving DecidableEq

/-- **A body under construction.** Labels wait in `pending` for the next instruction; branches and
tables wait for all labels to be known. -/
structure Assembler where
  body : MethodBody
  labels : List (String × InstrId)
  pending : List String
  branches : List (InstrId × String)
  switches : List (InstrId × List String)
  handlers : List HandlerSpec
  autoLocals : Bool
  deriving DecidableEq

namespace Assembler

/-- Nothing emitted yet. The header declares a stack of eight and cleared locals. -/
def new : Assembler :=
  ⟨{ MethodBody.empty with maxStack := 8, initLocals := true }, [], [], [], [], [], true⟩

/-- What an assembler can be asked to do. -/
inductive Call
  | noAutoLocals
  | maxStack (size : UInt16)
  | declareLocal (sig : TypeSig)
  | label (name : String)
  | emit (i : Instruction)
  | op (opcode : OpCode)
  | branch (opcode : OpCode) (label : String)
  | switch (labels : List String)
  | protect (handler : HandlerSpec)

variable (a : Assembler)

/-- The label is bound or waits for an instruction. -/
def isTaken (label : String) : Bool :=
  (a.labels.lookup label).isSome || a.pending.contains label

/-- Locals declared, as objects, until there is one with this index. -/
def touchLocal (index : UInt16) : List LocalVar :=
  a.body.locals ++ List.replicate (index.toNat + 1 - a.body.locals.length) ⟨none, .object⟩

/-- The locals after an instruction is emitted. -/
def localsAfter (i : Instruction) : List LocalVar :=
  match i.local? with
  | some index => if a.autoLocals then a.touchLocal index else a.body.locals
  | none => a.body.locals

/-- **An instruction emitted:** all waiting labels are bound to it. -/
def emit (i : Instruction) : Assembler :=
  { a with
    body := { a.body with locals := a.localsAfter i }.push i
    labels := a.labels ++ a.pending.map (·, a.body.fresh)
    pending := [] }

/-- The target of a branch whose label is not resolved yet. -/
def unresolved : InstrId := ⟨0xFFFFFFFF⟩

/-- **A call in progress.** A failure does not take back what was changed before it. -/
abbrev Action := ExceptT Error (StateM Assembler)

/-- The instruction emitted, and its identity. -/
def push (i : Instruction) : Action InstrId := do
  let a ← get
  set (a.emit i)
  return a.body.fresh

/-- **One call.** -/
def perform : Call → Action Unit
  | .noAutoLocals => modify fun a => { a with autoLocals := false }
  | .maxStack size => modify fun a => { a with body := { a.body with maxStack := size } }
  | .declareLocal sig =>
    modify fun a => { a with body := { a.body with locals := a.body.locals ++ [⟨none, sig⟩] } }
  | .label name => do
    if (← get).isTaken name then throw (.duplicateLabel name)
    else modify fun a => { a with pending := a.pending ++ [name] }
  | .emit i => discard (push i)
  | .op opcode =>
    if opcode.operandKind = .absent then discard (push (.bare opcode))
    else throw (.malformed (.operandRequired opcode.mnemonic))
  | .branch opcode label =>
    if opcode.isBranch then do
      let id ← push (.of opcode (.target unresolved))
      modify fun a => { a with branches := a.branches ++ [(id, label)] }
    else throw (.malformed (.notABranch opcode.mnemonic))
  | .switch labels =>
    if labels.isEmpty then throw (.malformed .emptySwitch)
    else do
      let id ← push (.of .switch (.switch []))
      modify fun a => { a with switches := a.switches ++ [(id, labels)] }
  | .protect handler => modify fun a => { a with handlers := a.handlers ++ [handler] }

/-- **The outcome of a call, and the assembler after it,** whether it failed or not. -/
def attempt (call : Call) : Except Error Unit × Assembler := ((perform call).run.run a).run

/-! ### Resolution -/

/-- The instruction that a label stands for. -/
def resolve (label : String) : Except Error InstrId :=
  match a.labels.lookup label with
  | some id => .ok id
  | none => .error (.undefinedLabel label)

/-- The boundary of a label that may be left out. -/
def resolveOptional : Option String → Except Error (Option InstrId)
  | some label => (a.resolve label).map some
  | none => .ok none

/-- An instruction with its operand filled in. -/
def withOperand (operand : Operand) (i : Instruction) : Instruction := { i with operand }

/-- The targets of branches filled in, in the order of their calls. -/
def resolveBranches (body : MethodBody) : List (InstrId × String) → Except Error MethodBody
  | [] => .ok body
  | (id, label) :: rest => do
    let target ← a.resolve label
    resolveBranches (body.modify id (withOperand (.target target))) rest

/-- The tables of switches filled in, in the order of their calls. -/
def resolveSwitches (body : MethodBody) : List (InstrId × List String) → Except Error MethodBody
  | [] => .ok body
  | (id, labels) :: rest => do
    let targets ← labels.mapM a.resolve
    resolveSwitches (body.modify id (withOperand (.switch targets))) rest

/-- The boundaries of a handler, in the order of its fields. -/
def resolveHandler (h : HandlerSpec) : Except Error ExceptionHandler := do
  let tryStart ← a.resolve h.tryStart
  let tryEnd ← a.resolve h.tryEnd
  let handlerStart ← a.resolve h.handlerStart
  let handlerEnd ← a.resolveOptional h.handlerEnd
  let filterStart ← a.resolveOptional h.filterStart
  return ⟨h.flags, tryStart, tryEnd, handlerStart, handlerEnd, filterStart, h.catchType⟩

/-- **The finished body.** A label that no instruction follows is reported before a label that was
never given, and those in the order branches, switches, handlers. -/
def finish : Except Error MethodBody :=
  match a.pending with
  | label :: _ => .error (.malformed (.danglingLabel label))
  | [] => do
    let body ← a.resolveBranches a.body a.branches
    let body ← a.resolveSwitches body a.switches
    let handlers ← a.handlers.mapM a.resolveHandler
    return { body with handlers := body.handlers ++ handlers }.updateOffsets

end Assembler

end CilRepair
