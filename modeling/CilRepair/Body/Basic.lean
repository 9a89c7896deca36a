import CilRepair.Handler
import CilRepair.Metadata

/-!
# Method bodies

A body keeps every instruction it ever held in an arena and the executable sequence as a list of
identities. Removing an instruction takes its identity off the sequence and leaves the slot, so that
a reference is dangling exactly when its identity is not in the sequence.

## Main definitions

* `MethodBody`: arena, sequence (`order`), locals, handlers.
* `MethodBody.live`: the live instructions with their identities.
* `MethodBody.position?`, `MethodBody.lastPosition?`: the place of an identity in the sequence.
* `MethodBody.ArenaValid`: each identity of the sequence has a slot, and none occurs twice.
* `ArenaFault`, `MethodBody.arenaFault?`: the first offence against it.

A body is plain data and need not be valid: damaged bodies are what this library is about.
-/

namespace CilRepair

/-- A local variable. -/
structure LocalVar where
  name : Option String
  sig : TypeSig
  deriving DecidableEq

/-- **A method body.** -/
structure MethodBody where
  arena : List Instruction
  order : List InstrId
  locals : List LocalVar
  handlers : List ExceptionHandler
  maxStack : UInt16
  initLocals : Bool
  deriving DecidableEq

/-- What is wrong with a sequence: an identity without a slot, or one that occurred before. -/
inductive ArenaFault
  | outside (id : InstrId) (size : Nat)
  | repeated (id : InstrId)
  deriving DecidableEq

/-- The wording of a fault. -/
def ArenaFault.message : ArenaFault → String
  | outside id size =>
    "Instruction " ++ id.text ++ " is outside the arena of " ++ natText size ++ " entries"
  | repeated id => "Instruction " ++ id.text ++ " appears twice in the body"

/-- The place of the last occurrence of an identity. -/
def lastIndexOf? (id : InstrId) : List InstrId → Option Nat
  | [] => none
  | head :: rest =>
    match lastIndexOf? id rest with
    | some index => some (index + 1)
    | none => if head = id then some 0 else none

namespace MethodBody

/-- The body without instructions. -/
def empty : MethodBody := ⟨[], [], [], [], 0, false⟩

variable (b : MethodBody)

/-! ### Reading -/

/-- The number of places in the sequence. -/
def length : Nat := b.order.length

/-- The instruction in the slot of an identity, live or not. -/
def get? (id : InstrId) : Option Instruction := b.arena[id.slot]?

/-- The identity at a place of the sequence. -/
def idAt? (position : Nat) : Option InstrId := b.order[position]?

/-- The instruction at a place of the sequence. -/
def at? (position : Nat) : Option Instruction := (b.idAt? position).bind b.get?

/-- The identities of the sequence that have a slot, with their instructions. -/
def live : List (InstrId × Instruction) :=
  b.order.filterMap fun id => (b.get? id).map (id, ·)

/-- The instructions of the sequence. -/
def instructions : List Instruction := b.order.filterMap b.get?

/-- An identity is in the sequence. -/
def isLive (id : InstrId) : Bool := b.order.contains id

/-- The place of the first occurrence of an identity. -/
def position? (id : InstrId) : Option Nat := b.order.findIdx? (· == id)

/-- The place of the last occurrence of an identity. In a valid body it is the only one. -/
def lastPosition? (id : InstrId) : Option Nat := lastIndexOf? id b.order

/-- The first identity. -/
def first? : Option InstrId := b.order.head?

/-- The last identity. -/
def last? : Option InstrId := b.order.getLast?

/-- The identity after the first occurrence of another. -/
def next? (id : InstrId) : Option InstrId :=
  (b.position? id).bind fun position => b.idAt? (position + 1)

/-- The last instruction is one that control never falls through. -/
def endsTerminal : Bool :=
  match b.last?.bind b.get? with
  | some i => i.isTerminal
  | none => false

/-- The number of single-target branches. -/
def branchCount : Nat := b.instructions.countP Instruction.isBranch

/-- Some instruction is a `switch`. -/
def hasSwitch : Bool := b.instructions.any Instruction.isSwitch

/-! ### Validity -/

/-- **Each identity of the sequence has a slot, and none occurs twice.** -/
structure ArenaValid : Prop where
  slot_lt : ∀ id ∈ b.order, id.slot < b.arena.length
  nodup : b.order.Nodup

/-- The first identity that has no slot or occurred before, given those that came before. -/
def faultIn? (size : Nat) : (seen rest : List InstrId) → Option ArenaFault
  | _, [] => none
  | seen, id :: rest =>
    if size ≤ id.slot then some (.outside id size)
    else if seen.contains id then some (.repeated id)
    else faultIn? size (id :: seen) rest

/-- **The first offence against validity,** in the order of the sequence. -/
def arenaFault? : Option ArenaFault := faultIn? b.arena.length [] b.order


end MethodBody

end CilRepair
