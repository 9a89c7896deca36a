import CilRepair.Body.Basic

/-!
# Editing bodies

The operations that change the sequence or a slot. A new instruction always takes a new slot, so
that an identity never comes to name another instruction.

## Main definitions

* `MethodBody.fresh`: the identity that the next instruction gets.
* `MethodBody.push`, `insert`, `insertBefore?`, `insertAfter?`, `remove`, `removeWhere`, `clear`,
  `modify`, `set`.
* `MethodBody.ofInstructions`: the body of a list of instructions.
-/

namespace CilRepair

namespace MethodBody

variable (b : MethodBody)

/-- The identity that the next instruction gets. Identities wrap after `2 ^ 32` instructions. -/
def fresh : InstrId := ⟨UInt32.ofNat b.arena.length⟩

/-- **A new instruction at a place of the sequence,** or at the end if the sequence is shorter. -/
def insert (position : Nat) (i : Instruction) : MethodBody :=
  { b with
    arena := b.arena ++ [i]
    order := b.order.insertIdx (min position b.order.length) b.fresh }

/-- A new instruction at the end. -/
def push (i : Instruction) : MethodBody :=
  { b with arena := b.arena ++ [i], order := b.order ++ [b.fresh] }

/-- A new instruction in front of a live one. -/
def insertBefore? (anchor : InstrId) (i : Instruction) : Option MethodBody :=
  (b.position? anchor).map (b.insert · i)

/-- A new instruction behind a live one. -/
def insertAfter? (anchor : InstrId) (i : Instruction) : Option MethodBody :=
  (b.position? anchor).map fun position => b.insert (position + 1) i

/-- Without the first occurrence of an identity. Its slot stays. -/
def remove (id : InstrId) : MethodBody := { b with order := b.order.erase id }

/-- Without the live instructions that satisfy a test. Identities without a slot stay. -/
def removeWhere (p : InstrId → Instruction → Bool) : MethodBody :=
  { b with
    order := b.order.filter fun id =>
      match b.get? id with
      | some i => !p id i
      | none => true }

/-- Without any live instruction. -/
def clear : MethodBody := { b with order := [] }

/-- The slot of an identity changed; nothing happens if there is none. -/
def modify (id : InstrId) (f : Instruction → Instruction) : MethodBody :=
  { b with arena := b.arena.modify id.slot f }

/-- The slot of an identity overwritten. -/
def set (id : InstrId) (i : Instruction) : MethodBody := b.modify id fun _ => i

/-- The body of a list of instructions. -/
def ofInstructions (instructions : List Instruction) : MethodBody :=
  instructions.foldl push empty

@[simp] theorem length_push (i : Instruction) : (b.push i).order.length = b.order.length + 1 := by
  simp [push]

@[simp] theorem length_insert (position : Nat) (i : Instruction) :
    (b.insert position i).order.length = b.order.length + 1 := by
  rw [insert, List.length_insertIdx_of_le_length (Nat.min_le_right _ _)]

end MethodBody

end CilRepair
