import CilRepair.Body.Basic

/-!
# Partial evaluation

Recovery of constants: a body is run from its first instruction on integers alone until a target
instruction is about to run, within a budget of steps. What the evaluator does not model leaves the
stack as it is.

## Main definitions

* `UnknownReason`, `Evaluated`: the answers. An unknown answer says why.
* `Frame`, `step`: the state between instructions, and one instruction.
* `Evaluator.run`: steps until the target, by recursion on the budget.
* `Evaluator.peekStack`, `Evaluator.resolveLocal`: the two queries.
* `Evaluator.seededLocals`: locals guessed before the run from literals that are stored on the way
  and from the idiom that reads memory at a shifted address.
-/

namespace CilRepair

/-- Why a value is not known. -/
inductive UnknownReason
  | targetNotInBody
  | notReached
  | budgetExhausted (limit : Nat)
  | stackUnderflow (id : InstrId)
  | localOutOfRange (index : UInt16)
  | emptyStack
  deriving DecidableEq

/-- The wording of a reason. -/
def UnknownReason.message : UnknownReason → String
  | targetNotInBody => "target is not in the body"
  | notReached => "target was never reached"
  | budgetExhausted limit => "step budget of " ++ natText limit ++ " exhausted"
  | stackUnderflow id => "stack underflow at " ++ id.text
  | localOutOfRange index => "local " ++ natText index.toNat ++ " out of range"
  | emptyStack => "stack empty at target"

/-- The answer to a query. -/
inductive Evaluated
  | known (value : Int32)
  | unknown (reason : UnknownReason)
  deriving DecidableEq

namespace Evaluated

/-- The value, if it is known. -/
def known? : Evaluated → Option Int32
  | known value => some value
  | unknown _ => none

/-- The answer that a computation amounts to. -/
def ofExcept : Except UnknownReason Int32 → Evaluated
  | .ok value => known value
  | .error reason => unknown reason

end Evaluated

/-- The state between two instructions. The top of the stack comes first. -/
structure Frame where
  stack : List Int32
  locals : List Int32
  deriving DecidableEq

/-- Bytes at the addresses from zero on. -/
abbrev Memory := List UInt8

/-- The 32-bit number at an address, low byte first; zero outside the memory. -/
def Memory.readInt32 (memory : Memory) (address : Int32) : Int32 :=
  if address.toInt < 0 then 0
  else match memory.drop address.toInt.toNat with
    | b₀ :: b₁ :: b₂ :: b₃ :: _ =>
      (b₀.toUInt32 ||| b₁.toUInt32 <<< 8 ||| b₂.toUInt32 <<< 16 ||| b₃.toUInt32 <<< 24).toInt32
    | _ => 0

/-- What comes after an instruction: the new state, and the destination if control jumps. -/
abbrev StepResult := Except UnknownReason (Frame × Option InstrId)

/-- Control goes on to the next instruction. -/
def proceed (frame : Frame) : StepResult := .ok (frame, none)

/-- **The local that an instruction names, checked against the frame.** An instruction that should
name one and does not is reported as the highest possible index. -/
def checkedSlot (i : Instruction) (frame : Frame) : Except UnknownReason Nat :=
  match i.local? with
  | none => .error (.localOutOfRange 65535)
  | some index =>
    if index.toNat < frame.locals.length then .ok index.toNat
    else .error (.localOutOfRange index)

/-- The arithmetic that the evaluator models. It wraps around, and a quotient by zero is zero. -/
def arithmetic? (op : BinaryOp) (a b : Int32) : Option Int32 :=
  match op with
  | .add => some (a + b)
  | .sub => some (a - b)
  | .mul => some (a * b)
  | .div => some (if b = 0 then 0 else a / b)
  | _ => none

/-- The value pushed for an operation on the two values on top of the stack. -/
def stepBinary (op : BinaryOp) (id : InstrId) (frame : Frame) : StepResult :=
  match op with
  | .add | .sub | .mul | .div =>
    match frame.stack with
    | b :: a :: rest =>
      proceed { frame with stack := ((arithmetic? op a b).getD 0) :: rest }
    | _ => .error (.stackUnderflow id)
  | _ => proceed frame

/-- A comparing branch takes both values off the stack and jumps if they are equal, or if they
differ. -/
def stepCompare (onEqual : Bool) (id : InstrId) (i : Instruction) (frame : Frame) : StepResult :=
  match frame.stack with
  | b :: a :: rest =>
    let jumps := decide (a = b) == onEqual
    .ok ({ frame with stack := rest }, if jumps then i.branchTarget? else none)
  | _ => .error (.stackUnderflow id)

/-- **One instruction.** Opcodes that the evaluator does not model do nothing. -/
def step (memory : Memory) (id : InstrId) (i : Instruction) (frame : Frame) : StepResult :=
  match i.literal? with
  | some value => proceed { frame with stack := value :: frame.stack }
  | none =>
    match i.opcode with
    | .ldloc _ => do
      let slot ← checkedSlot i frame
      proceed { frame with stack := frame.locals.getD slot 0 :: frame.stack }
    | .stloc _ => do
      let slot ← checkedSlot i frame
      match frame.stack with
      | value :: rest => proceed ⟨rest, frame.locals.set slot value⟩
      | [] => .error (.stackUnderflow id)
    | .binary op => stepBinary op id frame
    | .dup =>
      match frame.stack with
      | top :: rest => proceed { frame with stack := top :: top :: rest }
      | [] => .error (.stackUnderflow id)
    | .pop =>
      match frame.stack with
      | _ :: rest => proceed { frame with stack := rest }
      | [] => .error (.stackUnderflow id)
    | .ldindI4 =>
      match frame.stack with
      | address :: rest => proceed { frame with stack := memory.readInt32 address :: rest }
      | [] => .error (.stackUnderflow id)
    | .ldsflda => proceed { frame with stack := 0 :: frame.stack }
    | .branch .br _ => .ok (frame, i.branchTarget?)
    | .branch .beq _ => stepCompare true id i frame
    | .branch .bneUn _ => stepCompare false id i frame
    | _ => proceed frame

/-- A body with the memory and the limits of a query. -/
structure Evaluator where
  body : MethodBody
  memory : Memory
  budget : Nat
  offsetShift : Option Int32

namespace Evaluator

/-- The steps that a query may take by default. -/
def defaultBudget : Nat := 20000

/-- The shift that is assumed by default for the address idiom. -/
def defaultOffsetShift : Int32 := 4

variable (e : Evaluator)

/-- The place after an instruction at `position`: the destination of a jump if it is live, else the
next place. -/
def nextPosition (position : Nat) (jump : Option InstrId) : Nat :=
  (jump.bind e.body.lastPosition?).getD (position + 1)

/-- **Steps until the target is about to run.** Arriving at the target costs a step as well. -/
def runFrom (target : InstrId) : (remaining position : Nat) → Frame → Except UnknownReason Frame
  | remaining, position, frame =>
    match e.body.idAt? position with
    | none => .error .notReached
    | some id =>
      match remaining with
      | 0 => .error (.budgetExhausted e.budget)
      | remaining + 1 =>
        if id = target then .ok frame
        else match e.body.get? id with
          | none => .error .notReached
          | some i =>
            match step e.memory id i frame with
            | .error reason => .error reason
            | .ok (frame, jump) => runFrom target remaining (e.nextPosition position jump) frame

/-- **The frame at the target,** from given locals and an empty stack. -/
def run (target : InstrId) (locals : List Int32) : Except UnknownReason Frame :=
  if e.body.isLive target then e.runFrom target e.budget 0 ⟨[], locals⟩
  else .error .targetNotInBody

/-- As many zeros as the body has locals. -/
def zeroLocals : List Int32 := List.replicate e.body.locals.length 0

/-- **The value on top of the stack when the target is about to run.** -/
def peekStack (target : InstrId) : Evaluated :=
  .ofExcept <| do
    let frame ← e.run target e.zeroLocals
    match frame.stack with
    | top :: _ => .ok top
    | [] => .error .emptyStack

/-! ### Seeding of locals -/

/-- The local of the first place that adds to a local and reads memory there. -/
def offsetLocal? : List Instruction → Option UInt16
  | load :: add :: read :: rest =>
    let found? :=
      if read.opcode = .ldindI4 ∧ add.opcode = .binary .add ∧ load.opcode.isLoadLocal then
        load.local?
      else none
    match found? with
    | some index => some index
    | none => offsetLocal? (add :: read :: rest)
  | _ => none

/-- Literals that are stored before the target, put into the locals in order. -/
def seedStores (target : InstrId) :
    (previous : Option Instruction) → List (InstrId × Instruction) → List Int32 → List Int32
  | _, [], locals => locals
  | previous, (id, i) :: rest, locals =>
    if id = target then locals
    else
      let stored? := if i.opcode.isStoreLocal then i.local? else none
      let locals := match stored?, previous.bind Instruction.literal? with
        | some index, some value => locals.set index.toNat value
        | _, _ => locals
      seedStores target (some i) rest locals

/-- **The locals that a query starts from.** -/
def seededLocals (target : InstrId) : List Int32 :=
  let shifted := match e.offsetShift, offsetLocal? e.body.instructions with
    | some shift, some index => e.zeroLocals.set index.toNat shift
    | _, _ => e.zeroLocals
  seedStores target none e.body.live shifted

/-- **The value of a local when the target is about to run.** -/
def resolveLocal (target : InstrId) (index : UInt16) : Evaluated :=
  if e.body.locals.length ≤ index.toNat then .unknown (.localOutOfRange index)
  else .ofExcept <| do
    let frame ← e.run target (e.seededLocals target)
    match frame.locals[index.toNat]? with
    | some value => .ok value
    | none => .error (.localOutOfRange index)

end Evaluator

end CilRepair
