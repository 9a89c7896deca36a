import CilRepair.Decimal.Digits

/-!
# Opcodes

The instruction set that bodies are written in: constants, locals, arguments, arithmetic,
comparisons, every branch, `switch`, array elements, indirect loads, member references and the
transfers of exception handling.

## Main definitions

* `OpCode`: the opcodes, with the part that varies inside a family as an argument of its
  constructor (`branch kind form`, `ldloc form`, `binary op`), so that a rule about a family is one
  equation.
* `OpCode.mnemonic`: the spelling of an opcode in assembly text.
* `OpCode.all`, `OpCode.ofMnemonic?`: the table read backwards.
* `OpCode.toLong`, `OpCode.toShort`: the two encodings of a branch.
-/

namespace CilRepair

/-- What a branch tests before it jumps. -/
inductive BranchKind
  | br | brfalse | brtrue | beq | bge | bgt | ble | blt
  | bneUn | bgeUn | bgtUn | bleUn | bltUn | leave
  deriving DecidableEq

/-- The width of a branch displacement: one byte or four. -/
inductive BranchForm
  | short | long
  deriving DecidableEq

/-- How an access to a local or an argument names its slot: in the opcode itself, in one byte, or
in two bytes. -/
inductive SlotForm
  | fixed (slot : Fin 4)
  | short
  | long
  deriving DecidableEq

/-- How a 32-bit literal is written: in the opcode itself, in one byte, or in four. The literal
`fixed n` stands for the number `n - 1`, so that the ten of them run from `-1` to `8`. -/
inductive LiteralForm
  | fixed (shifted : Fin 10)
  | short
  | long
  deriving DecidableEq

/-- The binary operations on integers. -/
inductive BinaryOp
  | add | sub | mul | div | rem | and | or | xor | shl | shr
  deriving DecidableEq

/-- The comparisons that push a truth value. -/
inductive Comparison
  | ceq | cgt | cgtUn | clt | cltUn
  deriving DecidableEq

/-- The array elements that can be loaded. -/
inductive LoadedElement
  | i1 | u1 | i2 | i4 | i8 | ref
  deriving DecidableEq

/-- The array elements that can be stored. -/
inductive StoredElement
  | i1 | i2 | i4 | i8 | ref
  deriving DecidableEq

/-- **An opcode.** -/
inductive OpCode
  | nop | breakpoint
  | ldarg (form : SlotForm)
  | stargS
  | ldloc (form : SlotForm)
  | ldlocaS
  | stloc (form : SlotForm)
  | ldnull
  | ldcI4 (form : LiteralForm)
  | ldcI8 | ldcR4 | ldcR8 | ldstr
  | dup | pop
  | jmp | call | calli | callvirt | newobj | ret
  | branch (kind : BranchKind) (form : BranchForm)
  | switch
  | ldindI4
  | binary (op : BinaryOp)
  | neg | not | convI4
  | ldfld | stfld | ldsfld | ldsflda | stsfld | newarr | ldlen
  | ldelem (element : LoadedElement)
  | stelem (element : StoredElement)
  | throw | rethrow | endfinally | endfilter
  | compare (test : Comparison)
  deriving DecidableEq

/-! ### Spelling -/

/-- The spelling of a branch without its width mark. -/
def BranchKind.mnemonic : BranchKind → String
  | .br => "br"
  | .brfalse => "brfalse"
  | .brtrue => "brtrue"
  | .beq => "beq"
  | .bge => "bge"
  | .bgt => "bgt"
  | .ble => "ble"
  | .blt => "blt"
  | .bneUn => "bne.un"
  | .bgeUn => "bge.un"
  | .bgtUn => "bgt.un"
  | .bleUn => "ble.un"
  | .bltUn => "blt.un"
  | .leave => "leave"

/-- A fixed slot is a number after the stem, a short one the letter `s`, a long one the bare
stem. -/
def SlotForm.mnemonic (stem : String) : SlotForm → String
  | .fixed slot => stem ++ "." ++ natText slot.val
  | .short => stem ++ ".s"
  | .long => stem

/-- The one negative literal with an opcode of its own is spelled `m1`. -/
def LiteralForm.mnemonic : LiteralForm → String
  | .fixed shifted =>
    if shifted.val = 0 then "ldc.i4.m1" else "ldc.i4." ++ natText (shifted.val - 1)
  | .short => "ldc.i4.s"
  | .long => "ldc.i4"

/-- The spelling of a binary operation. -/
def BinaryOp.mnemonic : BinaryOp → String
  | .add => "add"
  | .sub => "sub"
  | .mul => "mul"
  | .div => "div"
  | .rem => "rem"
  | .and => "and"
  | .or => "or"
  | .xor => "xor"
  | .shl => "shl"
  | .shr => "shr"

/-- The spelling of a comparison. -/
def Comparison.mnemonic : Comparison → String
  | .ceq => "ceq"
  | .cgt => "cgt"
  | .cgtUn => "cgt.un"
  | .clt => "clt"
  | .cltUn => "clt.un"

/-- The spelling of a loaded element. -/
def LoadedElement.mnemonic : LoadedElement → String
  | .i1 => "ldelem.i1"
  | .u1 => "ldelem.u1"
  | .i2 => "ldelem.i2"
  | .i4 => "ldelem.i4"
  | .i8 => "ldelem.i8"
  | .ref => "ldelem.ref"

/-- The spelling of a stored element. -/
def StoredElement.mnemonic : StoredElement → String
  | .i1 => "stelem.i1"
  | .i2 => "stelem.i2"
  | .i4 => "stelem.i4"
  | .i8 => "stelem.i8"
  | .ref => "stelem.ref"

namespace OpCode

/-- **The spelling of an opcode in assembly text.** No two opcodes share one. -/
def mnemonic : OpCode → String
  | nop => "nop"
  | breakpoint => "break"
  | ldarg form => form.mnemonic "ldarg"
  | stargS => "starg.s"
  | ldloc form => form.mnemonic "ldloc"
  | ldlocaS => "ldloca.s"
  | stloc form => form.mnemonic "stloc"
  | ldnull => "ldnull"
  | ldcI4 form => form.mnemonic
  | ldcI8 => "ldc.i8"
  | ldcR4 => "ldc.r4"
  | ldcR8 => "ldc.r8"
  | ldstr => "ldstr"
  | dup => "dup"
  | pop => "pop"
  | jmp => "jmp"
  | call => "call"
  | calli => "calli"
  | callvirt => "callvirt"
  | newobj => "newobj"
  | ret => "ret"
  | branch kind .short => kind.mnemonic ++ ".s"
  | branch kind .long => kind.mnemonic
  | switch => "switch"
  | ldindI4 => "ldind.i4"
  | binary op => op.mnemonic
  | neg => "neg"
  | not => "not"
  | convI4 => "conv.i4"
  | ldfld => "ldfld"
  | stfld => "stfld"
  | ldsfld => "ldsfld"
  | ldsflda => "ldsflda"
  | stsfld => "stsfld"
  | newarr => "newarr"
  | ldlen => "ldlen"
  | ldelem element => element.mnemonic
  | stelem element => element.mnemonic
  | throw => "throw"
  | rethrow => "rethrow"
  | endfinally => "endfinally"
  | endfilter => "endfilter"
  | compare test => test.mnemonic

end OpCode

/-! ### Enumeration -/

/-- Every branch kind. -/
def BranchKind.all : List BranchKind :=
  [.br, .brfalse, .brtrue, .beq, .bge, .bgt, .ble, .blt, .bneUn, .bgeUn, .bgtUn, .bleUn, .bltUn,
    .leave]

/-- Every way to name a slot. -/
def SlotForm.all : List SlotForm :=
  (List.finRange 4).map .fixed ++ [.short, .long]

/-- Every way to write a literal. -/
def LiteralForm.all : List LiteralForm :=
  (List.finRange 10).map .fixed ++ [.short, .long]

namespace OpCode

/-- The opcodes that belong to no family. -/
def single : List OpCode :=
  [nop, breakpoint, stargS, ldlocaS, ldnull, ldcI8, ldcR4, ldcR8, ldstr, dup, pop, jmp, call, calli,
    callvirt, newobj, ret, switch, ldindI4, neg, not, convI4, ldfld, stfld, ldsfld, ldsflda, stsfld,
    newarr, ldlen, throw, rethrow, endfinally, endfilter]

/-- Every opcode. -/
def all : List OpCode :=
  single
    ++ SlotForm.all.map ldarg ++ SlotForm.all.map ldloc ++ SlotForm.all.map stloc
    ++ LiteralForm.all.map ldcI4
    ++ BranchKind.all.map (branch · .short) ++ BranchKind.all.map (branch · .long)
    ++ [BinaryOp.add, .sub, .mul, .div, .rem, .and, .or, .xor, .shl, .shr].map binary
    ++ [LoadedElement.i1, .u1, .i2, .i4, .i8, .ref].map ldelem
    ++ [StoredElement.i1, .i2, .i4, .i8, .ref].map stelem
    ++ [Comparison.ceq, .cgt, .cgtUn, .clt, .cltUn].map compare

/-- The opcode with this spelling, to the letter. -/
def ofMnemonic? (text : String) : Option OpCode :=
  all.find? (·.mnemonic == text)

/-! ### The two widths of a branch -/

/-- A branch with the wide displacement; any other opcode is its own long form. -/
def toLong : OpCode → OpCode
  | branch kind _ => branch kind .long
  | op => op

/-- A branch with the narrow displacement; any other opcode is its own short form. -/
def toShort : OpCode → OpCode
  | branch kind _ => branch kind .short
  | op => op

@[simp] theorem toLong_toLong (op : OpCode) : op.toLong.toLong = op.toLong := by
  cases op <;> rfl

@[simp] theorem toLong_toShort (op : OpCode) : op.toShort.toLong = op.toLong := by
  cases op <;> rfl

@[simp] theorem toShort_toLong (op : OpCode) : op.toLong.toShort = op.toShort := by
  cases op <;> rfl

/-- An opcode differs from its short form exactly when it is a wide branch. -/
theorem toShort_ne_self_iff (op : OpCode) :
    op.toShort ≠ op ↔ ∃ kind, op = branch kind .long := by
  cases op <;> simp [toShort]
  case branch kind form => cases form <;> simp

end OpCode

end CilRepair
