import CilRepair.Opcode.Basic

/-!
# Effect of opcodes

What an opcode does to control and to the evaluation stack, and the small families that other
modules ask about.

## Main definitions

* `FlowKind`, `OpCode.flow`: how control leaves an instruction.
* `FlowKind.isTerminal`: the kinds that a body may end with.
* `OpCode.stackEffect`: how many values an opcode takes off the stack and puts on it. Calls count as
  taking none and pushing one, since the callee is not known.
-/

namespace CilRepair

/-- How control leaves an instruction. -/
inductive FlowKind
  | sequential | conditionalBranch | unconditionalBranch | call | return | switch | throw
  | endFinally | leave
  deriving DecidableEq

/-- **Control never falls through a terminal instruction.** These are the returns, the throws and
the unconditional transfers; a body may end with any of them. -/
def FlowKind.isTerminal : FlowKind → Bool
  | .return | .endFinally | .throw | .unconditionalBranch | .leave => true
  | _ => false

namespace OpCode

/-- How control leaves an opcode. -/
def flow : OpCode → FlowKind
  | branch .br _ => .unconditionalBranch
  | branch .leave _ => .leave
  | branch _ _ => .conditionalBranch
  | switch => .switch
  | ret | jmp => .return
  | endfinally | endfilter => .endFinally
  | throw | rethrow => .throw
  | call | calli | callvirt | newobj => .call
  | _ => .sequential

/-- **The values an opcode takes off the stack, and those it puts on it.** -/
def stackEffect : OpCode → Nat × Nat
  | nop | breakpoint | jmp | ret | branch .br _ | branch .leave _ | rethrow | endfinally => (0, 0)
  | ldarg _ | ldloc _ | ldlocaS | ldnull | ldcI4 _ | ldcI8 | ldcR4 | ldcR8 | ldstr | ldsfld
  | ldsflda | call | calli | callvirt | newobj => (0, 1)
  | stargS | stloc _ | pop | branch .brfalse _ | branch .brtrue _ | switch | stsfld | throw
  | endfilter => (1, 0)
  | dup => (1, 2)
  | ldindI4 | neg | not | convI4 | ldfld | newarr | ldlen => (1, 1)
  | branch _ _ | stfld => (2, 0)
  | binary _ | compare _ | ldelem _ => (2, 1)
  | stelem _ => (3, 0)

/-- The opcode pushes a truth value. -/
def isComparison : OpCode → Bool
  | compare _ => true
  | _ => false

/-- The opcode reads or writes an array element. -/
def isElementAccess : OpCode → Bool
  | ldelem _ | stelem _ => true
  | _ => false

/-- The opcode reads a local. -/
def isLoadLocal : OpCode → Bool
  | ldloc _ => true
  | _ => false

/-- The opcode writes a local. -/
def isStoreLocal : OpCode → Bool
  | stloc _ => true
  | _ => false

/-- The local that the opcode itself names. -/
def fixedLocal? : OpCode → Option UInt16
  | ldloc (.fixed slot) | stloc (.fixed slot) => some (UInt16.ofNat slot.val)
  | _ => none

/-- The literal that the opcode itself holds. -/
def fixedLiteral? : OpCode → Option Int32
  | ldcI4 (.fixed shifted) => some (Int32.ofNat shifted.val - 1)
  | _ => none

end OpCode

end CilRepair
