import CilRepair.Opcode.Basic

/-!
# Encoding of opcodes

The number that stands for an opcode in a code stream, the bytes that number takes and the kind of
operand that follows it.

## Main definitions

* `OpCode.value`: one byte, or two bytes whose first is `0xFE`.
* `OperandKind`, `OpCode.operandKind`: what follows the opcode.
* `OpCode.isBranch`: an opcode is a branch exactly when a single target follows it.
-/

namespace CilRepair

/-- What follows an opcode in a code stream. -/
inductive OperandKind
  | absent | int8 | uint8 | uint16 | int32 | int64 | float32 | float64 | token
  | shortTarget | longTarget | switchTable
  deriving DecidableEq

/-- The bytes that an operand of a kind takes. A switch table has no size of its own kind, for it
depends on the number of its entries. -/
def OperandKind.size? : OperandKind → Option Nat
  | absent => some 0
  | int8 | uint8 | shortTarget => some 1
  | uint16 => some 2
  | int32 | float32 | token | longTarget => some 4
  | int64 | float64 => some 8
  | switchTable => none

/-- The place of a branch in its row of the opcode table. The row holds every branch but
`leave`. -/
def BranchKind.row? : BranchKind → Option UInt16
  | br => some 0
  | brfalse => some 1
  | brtrue => some 2
  | beq => some 3
  | bge => some 4
  | bgt => some 5
  | ble => some 6
  | blt => some 7
  | bneUn => some 8
  | bgeUn => some 9
  | bgtUn => some 10
  | bleUn => some 11
  | bltUn => some 12
  | leave => none

namespace OpCode

/-- **The number of an opcode.** Two-byte opcodes are `0xFE00` plus their second byte. -/
def value : OpCode → UInt16
  | nop => 0x00
  | breakpoint => 0x01
  | ldarg (.fixed slot) => 0x02 + UInt16.ofNat slot.val
  | ldloc (.fixed slot) => 0x06 + UInt16.ofNat slot.val
  | stloc (.fixed slot) => 0x0A + UInt16.ofNat slot.val
  | ldarg .short => 0x0E
  | stargS => 0x10
  | ldloc .short => 0x11
  | ldlocaS => 0x12
  | stloc .short => 0x13
  | ldnull => 0x14
  | ldcI4 (.fixed shifted) => 0x15 + UInt16.ofNat shifted.val
  | ldcI4 .short => 0x1F
  | ldcI4 .long => 0x20
  | ldcI8 => 0x21
  | ldcR4 => 0x22
  | ldcR8 => 0x23
  | dup => 0x25
  | pop => 0x26
  | jmp => 0x27
  | call => 0x28
  | calli => 0x29
  | ret => 0x2A
  | branch kind .short => match kind.row? with
    | some row => 0x2B + row
    | none => 0xDE
  | branch kind .long => match kind.row? with
    | some row => 0x38 + row
    | none => 0xDD
  | switch => 0x45
  | ldindI4 => 0x4A
  | binary .add => 0x58
  | binary .sub => 0x59
  | binary .mul => 0x5A
  | binary .div => 0x5B
  | binary .rem => 0x5D
  | binary .and => 0x5F
  | binary .or => 0x60
  | binary .xor => 0x61
  | binary .shl => 0x62
  | binary .shr => 0x63
  | neg => 0x65
  | not => 0x66
  | convI4 => 0x69
  | callvirt => 0x6F
  | ldstr => 0x72
  | newobj => 0x73
  | throw => 0x7A
  | ldfld => 0x7B
  | stfld => 0x7D
  | ldsfld => 0x7E
  | ldsflda => 0x7F
  | stsfld => 0x80
  | newarr => 0x8D
  | ldlen => 0x8E
  | ldelem .i1 => 0x90
  | ldelem .u1 => 0x91
  | ldelem .i2 => 0x92
  | ldelem .i4 => 0x94
  | ldelem .i8 => 0x96
  | ldelem .ref => 0x9A
  | stelem .i1 => 0x9C
  | stelem .i2 => 0x9D
  | stelem .i4 => 0x9E
  | stelem .i8 => 0x9F
  | stelem .ref => 0xA2
  | endfinally => 0xDC
  | compare .ceq => 0xFE01
  | compare .cgt => 0xFE02
  | compare .cgtUn => 0xFE03
  | compare .clt => 0xFE04
  | compare .cltUn => 0xFE05
  | ldarg .long => 0xFE09
  | ldloc .long => 0xFE0C
  | stloc .long => 0xFE0E
  | endfilter => 0xFE11
  | rethrow => 0xFE1A

/-- The bytes of the opcode itself. -/
def size (op : OpCode) : Nat :=
  if op.value > 0xFF then 2 else 1

/-- What follows the opcode. -/
def operandKind : OpCode → OperandKind
  | ldarg .short | stargS | ldloc .short | ldlocaS | stloc .short => .uint8
  | ldarg .long | ldloc .long | stloc .long => .uint16
  | ldcI4 .short => .int8
  | ldcI4 .long => .int32
  | ldcI8 => .int64
  | ldcR4 => .float32
  | ldcR8 => .float64
  | ldstr | jmp | call | calli | callvirt | newobj | ldfld | stfld | ldsfld | ldsflda | stsfld
  | newarr => .token
  | branch _ .short => .shortTarget
  | branch _ .long => .longTarget
  | switch => .switchTable
  | _ => .absent

/-- **A branch is an opcode that a single target follows.** `switch` is none. -/
def isBranch (op : OpCode) : Bool :=
  match op.operandKind with
  | .shortTarget | .longTarget => true
  | _ => false

theorem isBranch_iff (op : OpCode) : op.isBranch = true ↔ ∃ kind form, op = branch kind form := by
  cases op <;> simp [isBranch, operandKind]
  case ldarg form => cases form <;> simp
  case ldloc form => cases form <;> simp
  case stloc form => cases form <;> simp
  case ldcI4 form => cases form <;> simp
  case branch kind form => cases form <;> simp

end OpCode

end CilRepair
