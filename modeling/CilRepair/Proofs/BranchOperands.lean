import CilRepair.Proofs.RepairSpecification

/-!
# The operands of repaired branches

A branch is meant to carry a single destination and a `switch` a table.  Repair gives each of them
an operand of its own kind when it finds one that names nothing, a slot or a text, say.  It looks at
the operand before it looks at the opcode, however, and to it a destination is a destination: a
table on a branch and a single destination on a `switch` only have their dead entries replaced.

* `Instruction.Directed` — a branch has a live destination, a `switch` a live table.
* `Instruction.isCrossed` — the operand is that of the other kind of transfer.
* `Instruction.Settled.directed_iff` — among instructions that need no repair, the crossed ones are
  those that are not directed.
* `MethodBody.directed_repair_iff` — repair directs every instruction that was not crossed, and no
  other.
* `MethodBody.emptyJump_stays` — a `br` with an empty table passes for the end of a body.

## Design notes

The exact condition is found by asking which operands repair leaves as they are.  It is a property
of one instruction before the repair, `isCrossed`, and repair does not change it; so the statement
about a whole body needs nothing but the law of one operand at each place.

`Directed` is what a branch and a `switch` are meant to be.  It is stronger than `Settled`, which
asks for live targets of either kind, and the difference between the two is exactly the crossed
instructions.
-/

namespace CilRepair

namespace Instruction

variable {i j : Instruction} {live : InstrId → Prop}

/-- **A branch has a live destination, and a `switch` a table of live ones.** -/
structure Directed (i : Instruction) (live : InstrId → Prop) : Prop where
  branch : i.isBranch = true → ∃ id, i.operand = .target id ∧ live id
  switch : i.isSwitch = true → ∃ ids, i.operand = .switch ids ∧ ∀ id ∈ ids, live id

/-- **A branch with a table, or a `switch` with a single destination.** -/
def isCrossed (i : Instruction) : Bool :=
  match i.opcode, i.operand with
  | .branch _ _, .switch _ | .switch, .target _ => true
  | _, _ => false

/-- A branch is crossed if it has a table, -/
theorem isCrossed_of_branch (h : i.isBranch = true) :
    i.isCrossed = true ↔ ∃ ids, i.operand = .switch ids := by
  obtain ⟨kind, form, hop⟩ := (OpCode.isBranch_iff _).mp h
  rw [isCrossed, hop]
  cases i.operand <;> simp

/-- a `switch` if it has a single destination, -/
theorem isCrossed_of_switch (h : i.isSwitch = true) :
    i.isCrossed = true ↔ ∃ id, i.operand = .target id := by
  rw [isCrossed, eq_of_beq h]
  cases i.operand <;> simp

/-- and nothing else is. -/
theorem isCrossed_of_neither (hbranch : i.isBranch = false) (hswitch : i.isSwitch = false) :
    i.isCrossed = false := by
  rcases i with ⟨op, operand, offset⟩
  cases op with
  | branch kind form => simp [isBranch] at hbranch
  | switch => simp [isSwitch] at hswitch
  | _ => rfl

/-- **An instruction that needs no repair is directed exactly if it is not crossed.**  Its targets
are live in any case, so only the kind of its operand is left to look at. -/
theorem Settled.directed_iff (h : i.Settled live) : i.Directed live ↔ i.isCrossed = false := by
  constructor
  · intro hdirected
    by_contra hcrossed
    rw [Bool.not_eq_false] at hcrossed
    cases hbranch : i.isBranch with
    | true =>
        obtain ⟨id, hid, -⟩ := hdirected.branch hbranch
        obtain ⟨ids, hids⟩ := (isCrossed_of_branch hbranch).mp hcrossed
        simp [hid] at hids
    | false =>
        cases hswitch : i.isSwitch with
        | true =>
            obtain ⟨ids, hids, -⟩ := hdirected.switch hswitch
            obtain ⟨id, hid⟩ := (isCrossed_of_switch hswitch).mp hcrossed
            simp [hids] at hid
        | false => simp [isCrossed_of_neither hbranch hswitch] at hcrossed
  · intro hcrossed
    -- The operand aims at something, and not at what belongs to the other kind of opcode.
    refine ⟨fun hbranch => ?_, fun hswitch => ?_⟩
    · rcases h.aimed (Or.inl hbranch) with ⟨id, hid⟩ | hids
      · exact ⟨id, hid, h.targets_live id (by simp [targets_of_target hid])⟩
      · simp [(isCrossed_of_branch hbranch).mpr hids] at hcrossed
    · rcases h.aimed (Or.inr hswitch) with hid | ⟨ids, hids⟩
      · simp [(isCrossed_of_switch hswitch).mpr hid] at hcrossed
      · exact ⟨ids, hids, fun id hid => h.targets_live id (by rwa [targets_of_switch hids])⟩

/-- Repair neither crosses an instruction nor uncrosses one.  By the cases of a repair. -/
theorem isCrossed_repairOperand (live : InstrId → Bool) (next : InstrId) (i : Instruction) :
    (MethodBody.repairOperand live next i).1.isCrossed = i.isCrossed := by
  have hcases := MethodBody.operandRepair live next i
  generalize MethodBody.repairOperand live next i = result at hcases ⊢
  rcases i with ⟨op, operand, offset⟩
  cases hcases with
  | target hoperand | table hoperand =>
      cases hoperand
      cases op <;> rfl
  | emptied haim hop | dropped haim hop | aimed haim hop =>
      -- What names nothing is not crossed before, and what repair gives it is of the right kind.
      cases hop
      cases operand with
      | target id => exact absurd (Or.inl ⟨id, rfl⟩) haim
      | switch ids => exact absurd (Or.inr ⟨ids, rfl⟩) haim
      | _ => rfl
  | untouched => rfl

end Instruction

namespace MethodBody

variable {b : MethodBody} {p : Nat} {j : Instruction}

/-- **What is at a place of a repaired body:** a repaired instruction, or the appended return.  The
return is behind all old places, and nothing is behind it. -/
theorem at?_repair_cases (hb : b.ArenaValid)
    (hroom : b.relinked.endsTerminal = true ∨ b.arena.length < UInt32.size)
    (hj : b.repair.1.at? p = some j) :
    (∃ i, b.at? p = some i ∧ j = (repairOperand b.isLive (b.fallback p) i).1) ∨ j = .ret := by
  by_cases hp : p < b.length
  · obtain ⟨i, hi⟩ := hb.exists_at? hp
    rw [at?_repair hb hi] at hj
    exact Or.inl ⟨i, hi, (Option.some.inj hj).symm⟩
  · rw [repair_fst, at?_declareLocals] at hj
    by_cases hend : b.relinked.endsTerminal = true
    · rw [terminate_of_endsTerminal hend] at hj
      exact absurd (by simpa using at?_lt hj) hp
    · rw [terminate_of_not_endsTerminal hend] at hj
      have hlast : p < b.length + 1 := by simpa [length] using at?_lt hj
      obtain rfl : p = b.relinked.length := by
        rw [length_relinked]
        omega
      rw [at?_push_length _ (by simpa using hroom.resolve_left hend)] at hj
      exact Or.inr (Option.some.inj hj).symm

/-- **Repair directs every branch and every `switch` but the crossed ones.**  At each place the
repaired instruction is directed exactly if the original was not crossed, and so all of them are,
the appended return included, exactly if none was. -/
theorem directed_repair_iff (b : MethodBody) (hb : b.ArenaValid)
    (hroom : b.repair.2.appendedReturns = 0 ∨ b.arena.length < UInt32.size) :
    (∀ p i, b.at? p = some i → ∃ j, b.repair.1.at? p = some j ∧
      (j.Directed (· ∈ b.repair.1.order) ↔ i.isCrossed = false)) ∧
    ((∀ j ∈ b.repair.1.instructions, j.Directed (· ∈ b.repair.1.order)) ↔
      ∀ i ∈ b.instructions, i.isCrossed = false) := by
  have hroom := endsTerminal_or_room hroom
  have hsettled := (intact_iff.mp (intact_repair hb hroom).2).1.settled
  have hplace : ∀ p i, b.at? p = some i → ∃ j, b.repair.1.at? p = some j ∧
      (j.Directed (· ∈ b.repair.1.order) ↔ i.isCrossed = false) := by
    intro p i hi
    have hj := at?_repair hb hi
    refine ⟨_, hj, ?_⟩
    rw [(hsettled p _ hj).directed_iff, Instruction.isCrossed_repairOperand]
  refine ⟨hplace, fun hall i hi => ?_, fun hnone j hj => ?_⟩
  · obtain ⟨p, hp⟩ := mem_instructions_iff.mp hi
    obtain ⟨j, hj, hiff⟩ := hplace p i hp
    exact hiff.mp (hall j (mem_instructions_iff.mpr ⟨p, hj⟩))
  · obtain ⟨p, hp⟩ := mem_instructions_iff.mp hj
    refine (hsettled p j hp).directed_iff.mpr ?_
    rcases at?_repair_cases hb hroom hp with ⟨i, hi, rfl⟩ | rfl
    · rw [Instruction.isCrossed_repairOperand]
      exact hnone i (mem_instructions_iff.mpr ⟨p, hi⟩)
    · rfl

/-- In `damagedBody` nothing is crossed, and so all of it is directed in the end. -/
theorem damagedBody_directed :
    damagedBody.ArenaValid ∧ damagedBody.arena.length < UInt32.size ∧
      ∀ j ∈ damagedBody.repair.1.instructions, j.Directed (· ∈ damagedBody.repair.1.order) :=
  ⟨by decide, by decide,
    (directed_repair_iff damagedBody (by decide) (Or.inr (by decide))).2.mpr (by decide)⟩

/-- A `br` whose operand is an empty table. -/
def emptyJump : MethodBody :=
  { MethodBody.empty with arena := [⟨.branch .br .long, .switch [], 0⟩], order := [⟨0⟩] }

/-- **A branch without a destination passes for the end of a body.**  Repair reports nothing, and
leaves the branch as it is. -/
theorem emptyJump_stays :
    emptyJump.ArenaValid ∧ emptyJump.repair = (emptyJump, {}) ∧ emptyJump.endsTerminal = true ∧
      ∃ j ∈ emptyJump.repair.1.instructions, j.isBranch = true ∧
        ¬ j.Directed (· ∈ emptyJump.repair.1.order) := by
  refine ⟨by decide, by decide, by decide, ⟨.branch .br .long, .switch [], 0⟩, by decide, by decide,
    fun h => ?_⟩
  obtain ⟨id, hid, -⟩ := h.branch (by decide)
  simp at hid

end MethodBody

end CilRepair
