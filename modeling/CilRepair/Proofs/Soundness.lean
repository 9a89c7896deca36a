import CilRepair.Body.Repair
import CilRepair.Proofs.Erasure

/-!
# Sound and intact bodies

What repair establishes, said by place and membership and without the functions that establish it.

* `MethodBody.Sound` — the structural invariants: references live, a terminal end, handlers in
  order, locals declared.
* `MethodBody.Intact` — sound, and no branch or `switch` lacks a destination operand.  These are
  the bodies in which repair finds nothing to do.
* `MethodBody.isWellOrdered_iff` — the test of a handler means what `Ordered` says.
* `MethodBody.intact_of_erased_eq` — both are properties of the code and not of its layout.

`Sound` is the weaker of the two on purpose.  A `br` whose operand is missing has no reference that
could be dead, so it offends against none of the invariants, and repair turns it into a `nop` all
the same.

## Design notes

The order of a handler is said with places that exist and not with functions that look for them.  A
boundary that is dead then has no place, and a handler with a dead boundary is out of order without
a clause for it.

`Resolved` groups what has to do with references, because repair restores it in one pass, while the
end of the body and the locals take one pass each.
-/

namespace CilRepair

/-- The operand names instructions: a destination, or a table of them. -/
def Operand.IsAim (operand : Operand) : Prop :=
  (∃ id, operand = .target id) ∨ (∃ ids, operand = .switch ids)

namespace Instruction

variable {i : Instruction}

theorem targets_of_target {id : InstrId} (h : i.operand = .target id) : i.targets = [id] := by
  rw [targets, h]
  rfl

/-- The targets of a table are its entries, repeated ones included. -/
theorem targets_of_switch {ids : List InstrId} (h : i.operand = .switch ids) :
    i.targets = ids := by
  rw [targets, h]
  rfl

/-- An operand that names no instructions has no targets, -/
theorem targets_of_not_isAim (h : ¬ i.operand.IsAim) : i.targets = [] := by
  rw [targets]
  cases hoperand : i.operand with
  | target id => exact absurd (Or.inl ⟨id, hoperand⟩) h
  | switch ids => exact absurd (Or.inr ⟨ids, hoperand⟩) h
  | _ => rfl

/-- and none to jump to. -/
theorem branchTarget?_of_not_isAim (h : ¬ i.operand.IsAim) : i.branchTarget? = none := by
  rw [branchTarget?]
  split
  · next id hoperand => exact absurd (Or.inl ⟨id, hoperand⟩) h
  · rfl

theorem isBranch_of_opcode {kind : BranchKind} {form : BranchForm}
    (h : i.opcode = .branch kind form) : i.isBranch = true := by
  rw [isBranch, h, OpCode.isBranch_branch]

theorem isSwitch_of_opcode (h : i.opcode = .switch) : i.isSwitch = true := by
  rw [isSwitch, h, beq_self_eq_true]

end Instruction

/-- **An instruction needs no repair:** what it names is live, and if it is a branch or a `switch`
it names something, if only by an empty table. -/
structure Instruction.Settled (i : Instruction) (live : InstrId → Prop) : Prop where
  targets_live : ∀ id ∈ i.targets, live id
  aimed : i.isBranch = true ∨ i.isSwitch = true → i.operand.IsAim

namespace MethodBody

variable {b c : MethodBody}

/-- The place where a handler ends.  A handler without an end reaches to the end of the body. -/
def EndsAt (b : MethodBody) (h : ExceptionHandler) (p : Nat) : Prop :=
  match h.handlerEnd with
  | some id => b.idAt? p = some id
  | none => p = b.length

theorem endsAt_iff_of_some {h : ExceptionHandler} {p : Nat} {id : InstrId}
    (hend : h.handlerEnd = some id) : b.EndsAt h p ↔ b.idAt? p = some id := by
  rw [EndsAt, hend]

theorem endsAt_iff_of_none {h : ExceptionHandler} {p : Nat} (hend : h.handlerEnd = none) :
    b.EndsAt h p ↔ p = b.length := by
  rw [EndsAt, hend]

/-- **The ranges of a handler are in order:** by the places of its boundaries,
`tryStart < tryEnd ≤ handlerStart < handlerEnd`. -/
def Ordered (b : MethodBody) (h : ExceptionHandler) : Prop :=
  ∃ tryStart tryEnd handlerStart handlerEnd,
    b.idAt? tryStart = some h.tryStart ∧ b.idAt? tryEnd = some h.tryEnd ∧
    b.idAt? handlerStart = some h.handlerStart ∧ b.EndsAt h handlerEnd ∧
    tryStart < tryEnd ∧ tryEnd ≤ handlerStart ∧ handlerStart < handlerEnd

/-- **The structural invariants of a body.** -/
structure Sound (b : MethodBody) : Prop where
  nonempty : b.order ≠ []
  targets_live : ∀ i ∈ b.instructions, ∀ id ∈ i.targets, id ∈ b.order
  boundaries_live : ∀ h ∈ b.handlers, ∀ id ∈ h.boundaries, id ∈ b.order
  ends_terminal : ∃ i, b.at? (b.length - 1) = some i ∧ i.isTerminal = true
  handlers_ordered : ∀ h ∈ b.handlers, b.Ordered h
  locals_declared : ∀ i ∈ b.instructions, ∀ index, i.local? = some index →
    index.toNat < b.locals.length

/-- **Nothing to repair:** sound, and every branch and `switch` has an operand that names
instructions. -/
structure Intact (b : MethodBody) : Prop extends Sound b where
  aimed : ∀ i ∈ b.instructions, i.isBranch = true ∨ i.isSwitch = true → i.operand.IsAim

/-! ### The test of a handler -/

/-- **The test of a handler** finds out whether its ranges are in order and its filter is live.  The
test looks for last places; in a valid body each identity has one place. -/
theorem isWellOrdered_iff (hb : b.ArenaValid) {h : ExceptionHandler} :
    b.isWellOrdered h = true ↔ b.Ordered h ∧ ∀ id ∈ h.filterStart, id ∈ b.order := by
  unfold isWellOrdered Ordered EndsAt
  simp only [← lastPosition?_eq_some_iff hb, ← lastPosition?_isSome_iff hb]
  cases b.lastPosition? h.tryStart with
  | none => simp
  | some tryStart =>
      cases b.lastPosition? h.tryEnd with
      | none => simp
      | some tryEnd =>
          cases b.lastPosition? h.handlerStart with
          | none => simp
          | some handlerStart =>
              cases h.handlerEnd with
              | none => cases h.filterStart <;> simp <;> tauto
              | some id =>
                  dsimp only
                  cases b.lastPosition? id with
                  | none => simp
                  | some handlerEnd => cases h.filterStart <;> simp <;> tauto

/-- The boundaries that `Ordered` places are live, and the filter is so by assumption. -/
theorem Ordered.boundaries_live {h : ExceptionHandler} (hord : b.Ordered h)
    (hfilter : ∀ id ∈ h.filterStart, id ∈ b.order) : ∀ id ∈ h.boundaries, id ∈ b.order := by
  obtain ⟨tryStart, tryEnd, handlerStart, handlerEnd, hs, he, hh, hend, -⟩ := hord
  intro id hid
  simp only [ExceptionHandler.boundaries, List.mem_append, List.mem_cons, List.not_mem_nil,
    or_false, Option.mem_toList] at hid
  rcases hid with ((rfl | rfl | rfl) | hid) | hid
  · exact mem_order_iff.mpr ⟨tryStart, hs⟩
  · exact mem_order_iff.mpr ⟨tryEnd, he⟩
  · exact mem_order_iff.mpr ⟨handlerStart, hh⟩
  · exact mem_order_iff.mpr ⟨handlerEnd, (endsAt_iff_of_some hid).mp hend⟩
  · exact hfilter id hid

/-- Handlers stay in order when instructions are appended.  A handler without an end then reaches to
the new one. -/
theorem Ordered.extend {h : ExceptionHandler} (hpre : b.order <+: c.order)
    (hord : b.Ordered h) : c.Ordered h := by
  obtain ⟨tryStart, tryEnd, handlerStart, handlerEnd, hs, he, hh, hend, h₁, h₂, h₃⟩ := hord
  have hkeep : ∀ {p id}, b.idAt? p = some id → c.idAt? p = some id := idAt?_extend hpre
  have hle : b.length ≤ c.length := hpre.length_le
  cases hopen : h.handlerEnd with
  | some id =>
      rw [endsAt_iff_of_some hopen] at hend
      exact ⟨tryStart, tryEnd, handlerStart, handlerEnd, hkeep hs, hkeep he, hkeep hh,
        (endsAt_iff_of_some hopen).mpr (hkeep hend), h₁, h₂, h₃⟩
  | none =>
      rw [endsAt_iff_of_none hopen] at hend
      exact ⟨tryStart, tryEnd, handlerStart, c.length, hkeep hs, hkeep he, hkeep hh,
        (endsAt_iff_of_none hopen).mpr rfl, h₁, h₂, by omega⟩

/-! ### Intact bodies, instruction by instruction -/

/-- **Every reference is resolved:** instructions are settled, and handlers are in order with their
filters live. -/
structure Resolved (b : MethodBody) : Prop where
  settled : ∀ p i, b.at? p = some i → i.Settled (· ∈ b.order)
  ordered : ∀ h ∈ b.handlers, b.Ordered h ∧ ∀ id ∈ h.filterStart, id ∈ b.order

/-- Every local in use is declared. -/
def LocalsDeclared (b : MethodBody) : Prop :=
  ∀ p i, b.at? p = some i → ∀ index, i.local? = some index → index.toNat < b.locals.length

/-- **Intact bodies by place.**  Repair restores the three parts one after the other, and a body
whose references are resolved and whose end is terminal cannot be empty. -/
theorem intact_iff : b.Intact ↔ b.Resolved ∧ b.endsTerminal = true ∧ b.LocalsDeclared := by
  rw [endsTerminal_iff]
  constructor
  · intro h
    refine ⟨⟨fun p i hi => ?_, fun x hx => ⟨h.handlers_ordered x hx, fun id hid => ?_⟩⟩,
      h.ends_terminal, fun p i hi => h.locals_declared i (mem_instructions_iff.mpr ⟨p, hi⟩)⟩
    · have hmem := mem_instructions_iff.mpr ⟨p, hi⟩
      exact ⟨h.targets_live i hmem, h.aimed i hmem⟩
    · exact h.boundaries_live x hx id (ExceptionHandler.mem_boundaries_of_filterStart hid)
  · rintro ⟨⟨hsettled, hordered⟩, hend, hlocals⟩
    refine ⟨⟨?_, ?_, ?_, hend, ?_, ?_⟩, ?_⟩
    · -- There is a last place, because something terminal is there.
      obtain ⟨i, hi, -⟩ := hend
      have hlt : b.length - 1 < b.length := at?_lt hi
      intro hnil
      rw [length, hnil] at hlt
      exact absurd hlt (by decide)
    · intro i hi
      obtain ⟨p, hp⟩ := mem_instructions_iff.mp hi
      exact (hsettled p i hp).targets_live
    · exact fun h hh => (hordered h hh).1.boundaries_live (hordered h hh).2
    · exact fun h hh => (hordered h hh).1
    · intro i hi
      obtain ⟨p, hp⟩ := mem_instructions_iff.mp hi
      exact hlocals p i hp
    · intro i hi
      obtain ⟨p, hp⟩ := mem_instructions_iff.mp hi
      exact (hsettled p i hp).aimed

/-- **To be intact is a property of the code.**  Erasure keeps identities, opcodes up to their
widths and operands, and nothing else is asked for. -/
theorem intact_of_erased_eq (hcode : c.erased = b.erased) (h : b.Intact) : c.Intact := by
  have horder := order_of_erased_eq hcode
  rw [intact_iff, endsTerminal_iff] at h ⊢
  obtain ⟨hresolved, ⟨last, hlast, hterminal⟩, hdeclared⟩ := h
  refine ⟨⟨fun p j hj => ?_, ?_⟩, ?_, fun p j hj => ?_⟩
  · obtain ⟨i, hi, hij⟩ := exists_at?_of_erased_eq hcode.symm hj
    have hi := hresolved.settled p i hi
    refine ⟨?_, ?_⟩
    · rw [horder, ← j.targets_erased, ← hij]
      exact hi.targets_live
    · rw [← j.isBranch_erased, ← j.isSwitch_erased, ← j.erased_operand, ← hij]
      simpa using hi.aimed
  · rw [handlers_of_erased_eq hcode, horder]
    exact fun x hx => ⟨(hresolved.ordered x hx).1.extend (horder ▸ List.prefix_refl _),
      (hresolved.ordered x hx).2⟩
  · obtain ⟨j, hj, hij⟩ := exists_at?_of_erased_eq hcode hlast
    refine ⟨j, by rw [length, horder, ← length, hj], ?_⟩
    rw [← j.isTerminal_erased, hij, last.isTerminal_erased, hterminal]
  · obtain ⟨i, hi, hij⟩ := exists_at?_of_erased_eq hcode.symm hj
    rw [locals_of_erased_eq hcode, ← j.local?_erased, ← hij, i.local?_erased]
    exact hdeclared p i hi

end MethodBody

end CilRepair
