import CilRepair.Decimal.Shortest
import CilRepair.Metadata
import CilRepair.Opcode.Encoding
import CilRepair.Opcode.Flow

/-!
# Instructions

An instruction is an opcode, an operand and the offset that the last layout gave it. Instructions
name each other by identity and not by offset, so that a reference keeps its meaning while a body is
edited.

## Main definitions

* `InstrId`, `Immediate`, `Operand`, `Instruction`.
* `Instruction.targets`: the instructions that an operand names.
* `Instruction.literal?`, `Instruction.local?`: the literal that is pushed, the local that is
  accessed.
* `Instruction.shortestLiteral`: the shortest instruction that pushes a number.
* `Instruction.size`, `Instruction.text`: encoded size and listing line.

The operand need not be of the kind that the opcode asks for: damaged bodies are values like any
other.
-/

namespace CilRepair

/-- The identity of an instruction inside its body. -/
structure InstrId where
  index : UInt32
  deriving DecidableEq

/-- The slot of the arena that an identity names. -/
def InstrId.slot (id : InstrId) : Nat := id.index.toNat

/-- How an identity is written. -/
def InstrId.text (id : InstrId) : String := "#" ++ natText id.index.toNat

/-- A constant inside an instruction. -/
inductive Immediate
  | int8 (value : Int8)
  | int32 (value : Int32)
  | int64 (value : Int64)
  | float32 (value : Binary32)
  | float64 (value : Binary64)
  deriving DecidableEq

namespace Immediate

/-- The value as a 32-bit integer, if the constant is an integer of at most that width. -/
def int32? : Immediate → Option Int32
  | int8 value => some value.toInt32
  | int32 value => some value
  | _ => none

/-- The listing text of a constant. -/
def text : Immediate → String
  | int8 value => intText value.toInt
  | int32 value => intText value.toInt
  | int64 value => intText value.toInt
  | float32 value => value.plainText
  | float64 value => value.plainText

end Immediate

/-- What an instruction works on. -/
inductive Operand
  | absent
  | immediate (value : Immediate)
  | slot (index : UInt16)
  | argument (index : UInt16)
  | target (id : InstrId)
  | switch (ids : List InstrId)
  | token (value : Token)
  | text (value : String)
  deriving DecidableEq, Inhabited

namespace Operand

/-- The instructions that an operand names, in order. -/
def targets : Operand → List InstrId
  | target id => [id]
  | switch ids => ids
  | _ => []

/-- The operand with every named instruction replaced. -/
def mapTargets (f : InstrId → InstrId) : Operand → Operand
  | target id => target (f id)
  | switch ids => switch (ids.map f)
  | operand => operand

@[simp] theorem targets_mapTargets (f : InstrId → InstrId) (operand : Operand) :
    (operand.mapTargets f).targets = operand.targets.map f := by
  cases operand <;> simp [mapTargets, targets]

end Operand

/-- **An instruction.** -/
structure Instruction where
  opcode : OpCode
  operand : Operand
  offset : UInt32
  deriving DecidableEq

namespace Instruction

/-- An instruction that has not been laid out. -/
def of (opcode : OpCode) (operand : Operand) : Instruction := ⟨opcode, operand, 0⟩

/-- An instruction without operand. -/
def bare (opcode : OpCode) : Instruction := of opcode .absent

/-- A `ret`. -/
def ret : Instruction := bare .ret

/-- A `nop`. -/
def nop : Instruction := bare .nop

/-- **The shortest instruction that pushes a number:** an opcode of its own from `-1` to `8`, one
byte if the number fits, else four. -/
def shortestLiteral (value : Int32) : Instruction :=
  let n := value.toInt
  if h : -1 ≤ n ∧ n ≤ 8 then bare (.ldcI4 (.fixed ⟨(n + 1).toNat, by omega⟩))
  else if -128 ≤ n ∧ n ≤ 127 then of (.ldcI4 .short) (.immediate (.int8 value.toInt8))
  else of (.ldcI4 .long) (.immediate (.int32 value))

variable (i : Instruction)

/-- A single-target branch. -/
def isBranch : Bool := i.opcode.isBranch

/-- A `switch`. -/
def isSwitch : Bool := i.opcode == .switch

/-- A `nop`. -/
def isNop : Bool := i.opcode == .nop

/-- Control never falls through. -/
def isTerminal : Bool := i.opcode.flow.isTerminal

/-- The instructions that the operand names. -/
def targets : List InstrId := i.operand.targets

/-- The operand names an instruction. -/
def references (id : InstrId) : Bool := i.targets.contains id

/-- The destination of a branch. A switch table is none. -/
def branchTarget? : Option InstrId :=
  match i.operand with
  | .target id => some id
  | _ => none

/-- **The 32-bit literal that the instruction pushes.** An opcode that needs a constant pushes none
if the constant is missing or of another kind. -/
def literal? : Option Int32 :=
  match i.opcode, i.operand with
  | .ldcI4 (.fixed _), _ => i.opcode.fixedLiteral?
  | .ldcI4 _, .immediate value => value.int32?
  | _, _ => none

/-- **The local that the instruction reads, writes or takes the address of.** -/
def local? : Option UInt16 :=
  if i.opcode.isLoadLocal || i.opcode.isStoreLocal || i.opcode == .ldlocaS then
    match i.opcode.fixedLocal?, i.operand with
    | some index, _ => some index
    | none, .slot index => some index
    | none, _ => none
  else none

/-- The bytes of the operand. Only a real table counts as entries of a `switch`. -/
def operandSize : Nat :=
  match i.opcode.operandKind.size? with
  | some size => size
  | none => match i.operand with
    | .switch ids => 4 + 4 * ids.length
    | _ => 4

/-- **The encoded size.** -/
def size : Nat := i.opcode.size + i.operandSize

/-- The listing text of the operand, with a blank in front. -/
def operandText : Operand → String
  | .absent => ""
  | .immediate value => " " ++ value.text
  | .slot index => " V_" ++ natText index.toNat
  | .argument index => " A_" ++ natText index.toNat
  | .target id => " " ++ id.text
  | .switch ids => " (" ++ ", ".intercalate (ids.map InstrId.text) ++ ")"
  | .token value => " " ++ value.text
  | .text value => " \"" ++ value ++ "\""

/-- **The listing line:** offset, mnemonic, operand. -/
def text : String :=
  "IL_" ++ (hexText 4 i.offset.toNat).map Char.toUpper ++ ": " ++ i.opcode.mnemonic
    ++ operandText i.operand

end Instruction

end CilRepair
