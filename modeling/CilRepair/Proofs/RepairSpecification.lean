import CilRepair.Proofs.RepairInvariants

/-!
# What repair does, and nothing else

`Sound` says what a repaired body is like.  It would also be true of a body in which an intact
branch was sent elsewhere.  Here the whole effect of repair is specified, so that whatever is not
broken is seen to stay: each instruction by clauses that go by its operand and its opcode, each
handler by its boundaries, and the body by its parts.

* `Instruction.MendedTo`, `ExceptionHandler.MendedTo` — the clauses, read as a relation between
  before and after.
* `MethodBody.RepairedTo` — the specification of the whole body, dead slots included.
* `MethodBody.RepairedTo.unique` — it determines the result.
* `MethodBody.repairedTo_repair` — and repair meets it.

The sequence grows by a return exactly if the last instruction is not terminal *after* its operand
was repaired; the specification therefore asks the repaired body, where the old last place is still
the same place.  Nothing here depends on the number of identities that are left, except that the
identity of the return is a new one only while there are any.

## Design notes

The clauses are read off from what a maintainer expects, and the function from the code; neither is
the other unfolded.  That they agree is two theorems, that the result meets the clauses and that
nothing else does.  The second is what keeps the clauses honest, since a clause that is forgotten
shows up as a second solution.

Dead slots are specified as well.  They are not run, but an image keeps them and a reader of it
meets them again.
-/

namespace CilRepair

open MethodBody

/-! ### Instructions -/

/-- **What repair makes of an instruction,** whose dead targets become `next`. -/
structure Instruction.MendedTo (live : InstrId → Bool) (next : InstrId) (i j : Instruction) :
    Prop where
  /-- Offsets stay. -/
  offset : j.offset = i.offset
  /-- A destination stays if it is live. -/
  target : ∀ id, i.operand = .target id →
    j.opcode = i.opcode ∧ j.operand = .target (revive live next id)
  /-- A table keeps its live entries, each in its place. -/
  table : ∀ ids, i.operand = .switch ids →
    j.opcode = i.opcode ∧ j.operand = .switch (ids.map (revive live next))
  /-- A `switch` that names nothing gets an empty table. -/
  emptied : ¬ i.operand.IsAim → i.opcode = .switch →
    j.opcode = i.opcode ∧ j.operand = .switch []
  /-- A `br` or `leave` that names nothing becomes a `nop`. -/
  dropped : ¬ i.operand.IsAim → ∀ kind form, i.opcode = .branch kind form →
    kind = .br ∨ kind = .leave → j.opcode = .nop ∧ j.operand = .absent
  /-- Any other branch that names nothing is aimed at `next`. -/
  aimed : ¬ i.operand.IsAim → ∀ kind form, i.opcode = .branch kind form →
    ¬ (kind = .br ∨ kind = .leave) → j.opcode = i.opcode ∧ j.operand = .target next
  /-- Everything else stays. -/
  untouched : ¬ i.operand.IsAim → ¬ (i.isBranch = true ∨ i.isSwitch = true) →
    j.opcode = i.opcode ∧ j.operand = i.operand

namespace Instruction

variable {live : InstrId → Bool} {next : InstrId} {i j j' : Instruction}

theorem eq_of_parts (hop : j.opcode = j'.opcode) (hoperand : j.operand = j'.operand)
    (hoffset : j.offset = j'.offset) : j = j' := by
  rcases j with ⟨op, operand, offset⟩
  rcases j' with ⟨op', operand', offset'⟩
  simp_all

/-- The clauses leave one possibility.  Whatever the operand and the opcode are, some clause fixes
both parts of the result. -/
theorem MendedTo.unique (h : i.MendedTo live next j) (h' : i.MendedTo live next j') : j = j' := by
  have hoffset : j.offset = j'.offset := h.offset.trans h'.offset.symm
  -- One clause applies to the instruction, and it fixes opcode and operand of both.
  have hparts : j.opcode = j'.opcode ∧ j.operand = j'.operand := by
    have agree : ∀ {op : OpCode} {operand : Operand}, (j.opcode = op ∧ j.operand = operand) →
        (j'.opcode = op ∧ j'.operand = operand) →
        j.opcode = j'.opcode ∧ j.operand = j'.operand :=
      fun hj hj' => ⟨hj.1.trans hj'.1.symm, hj.2.trans hj'.2.symm⟩
    have hcases := operandRepair live next i
    generalize repairOperand live next i = result at hcases
    cases hcases with
    | target hoperand => exact agree (h.target _ hoperand) (h'.target _ hoperand)
    | table hoperand => exact agree (h.table _ hoperand) (h'.table _ hoperand)
    | emptied haim hop => exact agree (h.emptied haim hop) (h'.emptied haim hop)
    | dropped haim hop hkind =>
        exact agree (h.dropped haim _ _ hop hkind) (h'.dropped haim _ _ hop hkind)
    | aimed haim hop hkind =>
        exact agree (h.aimed haim _ _ hop hkind) (h'.aimed haim _ _ hop hkind)
    | untouched haim hop => exact agree (h.untouched haim hop) (h'.untouched haim hop)
  exact eq_of_parts hparts.1 hparts.2 hoffset

/-- An instruction that names others is mended by its operand alone. -/
theorem mendedTo_of_isAim (haim : i.operand.IsAim) (hop : j.opcode = i.opcode)
    (hoffset : j.offset = i.offset)
    (htarget : ∀ id, i.operand = .target id → j.operand = .target (revive live next id))
    (htable : ∀ ids, i.operand = .switch ids → j.operand = .switch (ids.map (revive live next))) :
    i.MendedTo live next j where
  offset := hoffset
  target id h := ⟨hop, htarget id h⟩
  table ids h := ⟨hop, htable ids h⟩
  emptied h := absurd haim h
  dropped h := absurd haim h
  aimed h := absurd haim h
  untouched h := absurd haim h

/-- An instruction that names no others is mended by its opcode alone. -/
theorem mendedTo_of_not_isAim (haim : ¬ i.operand.IsAim) (hoffset : j.offset = i.offset)
    (hemptied : i.opcode = .switch → j.opcode = i.opcode ∧ j.operand = .switch [])
    (hdropped : ∀ kind form, i.opcode = .branch kind form → kind = .br ∨ kind = .leave →
      j.opcode = .nop ∧ j.operand = .absent)
    (haimed : ∀ kind form, i.opcode = .branch kind form → ¬ (kind = .br ∨ kind = .leave) →
      j.opcode = i.opcode ∧ j.operand = .target next)
    (huntouched : ¬ (i.isBranch = true ∨ i.isSwitch = true) →
      j.opcode = i.opcode ∧ j.operand = i.operand) : i.MendedTo live next j where
  offset := hoffset
  target id h := absurd (Or.inl ⟨id, h⟩) haim
  table ids h := absurd (Or.inr ⟨ids, h⟩) haim
  emptied _ := hemptied
  dropped _ := hdropped
  aimed _ := haimed
  untouched _ := huntouched

/-- **Repair of an operand follows the clauses.**  The cases are those of the operand first and of
the opcode then, as in the code. -/
theorem mendedTo_repairOperand (live : InstrId → Bool) (next : InstrId) (i : Instruction) :
    i.MendedTo live next (repairOperand live next i).1 := by
  have hcases := operandRepair live next i
  generalize repairOperand live next i = result at hcases ⊢
  cases hcases with
  | target hoperand =>
      exact mendedTo_of_isAim (Or.inl ⟨_, hoperand⟩) rfl rfl (by simp [hoperand])
        (by simp [hoperand])
  | table hoperand =>
      exact mendedTo_of_isAim (Or.inr ⟨_, hoperand⟩) rfl rfl (by simp [hoperand])
        (by simp [hoperand])
  | emptied haim hop =>
      exact mendedTo_of_not_isAim haim rfl (fun _ => ⟨rfl, rfl⟩) (by simp [hop]) (by simp [hop])
        fun h => absurd (Or.inr (isSwitch_of_opcode hop)) h
  | @dropped kind form haim hop hkind =>
      refine mendedTo_of_not_isAim haim rfl (by simp [hop]) (fun _ _ _ _ => ⟨rfl, rfl⟩) ?_
        fun h => absurd (Or.inl (isBranch_of_opcode hop)) h
      intro kind' form' h hne
      obtain ⟨rfl, rfl⟩ : kind = kind' ∧ form = form' := by simpa [hop] using h
      exact absurd hkind hne
  | @aimed kind form haim hop hkind =>
      refine mendedTo_of_not_isAim haim rfl (by simp [hop]) ?_ (fun _ _ _ _ => ⟨rfl, rfl⟩)
        fun h => absurd (Or.inl (isBranch_of_opcode hop)) h
      intro kind' form' h heq
      obtain ⟨rfl, rfl⟩ : kind = kind' ∧ form = form' := by simpa [hop] using h
      exact absurd heq hkind
  | untouched haim hop =>
      exact mendedTo_of_not_isAim haim rfl
        (fun h => absurd (Or.inr (isSwitch_of_opcode h)) hop)
        (fun _ _ h => absurd (Or.inl (isBranch_of_opcode h)) hop)
        (fun _ _ h => absurd (Or.inl (isBranch_of_opcode h)) hop) fun _ => ⟨rfl, rfl⟩

end Instruction

/-! ### Handlers -/

/-- **What repair makes of a handler.**  Its protected range falls back on the whole body, and the
handler on the end of that range as it is by then. -/
structure ExceptionHandler.MendedTo (live : InstrId → Bool) (first last : InstrId)
    (h h' : ExceptionHandler) : Prop where
  flags : h'.flags = h.flags
  tryStart : h'.tryStart = revive live first h.tryStart
  tryEnd : h'.tryEnd = revive live last h.tryEnd
  handlerStart : h'.handlerStart = revive live h'.tryEnd h.handlerStart
  handlerEnd : h'.handlerEnd = h.handlerEnd.map (revive live last)
  filterStart : h'.filterStart = h.filterStart.map (revive live h'.tryEnd)
  catchType : h'.catchType = h.catchType

/-- The clauses for a handler are the equations of the function, one for each boundary. -/
theorem ExceptionHandler.mendedTo_iff {live : InstrId → Bool} {first last : InstrId}
    {h h' : ExceptionHandler} :
    h.MendedTo live first last h' ↔ h' = reviveBoundaries live first last h := by
  constructor
  · rintro ⟨hflags, hstart, hend, hhandler, hhandlerEnd, hfilter, htype⟩
    rcases h' with ⟨flags, tryStart, tryEnd, handlerStart, handlerEnd, filterStart, catchType⟩
    simp_all [reviveBoundaries]
  · rintro rfl
    exact ⟨rfl, rfl, rfl, rfl, rfl, rfl, rfl⟩

/-- The same for all handlers, in their order. -/
theorem ExceptionHandler.forall₂_mendedTo_iff {live : InstrId → Bool} {first last : InstrId}
    {handlers mended : List ExceptionHandler} :
    List.Forall₂ (·.MendedTo live first last ·) handlers mended ↔
      mended = handlers.map (reviveBoundaries live first last) := by
  have heq : (fun h h' : ExceptionHandler => h.MendedTo live first last h') =
      fun h h' => reviveBoundaries live first last h = h' := by
    funext h h'
    exact propext (mendedTo_iff.trans eq_comm)
  rw [heq, ← List.forall₂_map_left_iff, List.forall₂_eq_eq_eq, eq_comm]

namespace MethodBody

variable {b r r' : MethodBody} {p : Nat} {id : InstrId} {i : Instruction}

/-- The ranges of a handler are in order and its filter is live. -/
def HandlerValid (b : MethodBody) (h : ExceptionHandler) : Prop :=
  b.Ordered h ∧ ∀ id ∈ h.filterStart, id ∈ b.order

/-! ### Bodies -/

/-- The instruction at the place that was the last one before repair is terminal. -/
def ClosedAt (r : MethodBody) (length : Nat) : Prop :=
  ∃ i, r.at? (length - 1) = some i ∧ i.isTerminal = true

/-- **What repair makes of a body.** -/
structure RepairedTo (b r : MethodBody) : Prop where
  /-- Every live instruction is mended in its slot; dead targets move to the next instruction, or
  to the last one if there is no next. -/
  instructions : ∀ p id i, b.idAt? p = some id → b.get? id = some i →
    ∃ j, r.get? id = some j ∧ i.MendedTo b.isLive (b.fallback p) j
  /-- Slots that are not live stay. -/
  dead_slots : ∀ n < b.arena.length, (∀ id ∈ b.order, id.slot ≠ n) → r.arena[n]? = b.arena[n]?
  /-- The sequence stays if its mended end is terminal. -/
  closed : r.ClosedAt b.length → r.order = b.order ∧ r.arena.length = b.arena.length
  /-- Otherwise it grows by a return in a slot of its own. -/
  extended : ¬ r.ClosedAt b.length → r.order = b.order ++ [b.fresh] ∧
    r.arena.length = b.arena.length + 1 ∧ r.arena[b.arena.length]? = some .ret
  /-- The handlers are those that are valid once mended, in their order. -/
  handlers : ∃ first last mended, ∃ valid : ExceptionHandler → Bool,
    b.first? = some first ∧ b.last? = some last ∧
    List.Forall₂ (·.MendedTo b.isLive first last ·) b.handlers mended ∧
    (∀ h, valid h = true ↔ b.HandlerValid h) ∧ r.handlers = mended.filter valid
  /-- Locals are added behind the old ones, as objects and up to the highest one in use. -/
  locals : ∃ added, r.locals = b.locals ++ List.replicate added ⟨none, .object⟩ ∧
    r.LocalsDeclared ∧ (added ≠ 0 → ∃ p i index, r.at? p = some i ∧
      i.local? = some index ∧ r.locals.length = index.toNat + 1)
  maxStack : r.maxStack = b.maxStack
  initLocals : r.initLocals = b.initLocals

/-- The old sequence begins the new one, with or without a return behind it. -/
theorem RepairedTo.prefix_order (h : b.RepairedTo r) : b.order <+: r.order := by
  by_cases hclosed : r.ClosedAt b.length
  · exact (h.closed hclosed).1 ▸ List.prefix_refl _
  · exact (h.extended hclosed).1 ▸ List.prefix_append _ _

/-- Two results agree on the slots of the old arena: live slots are mended, and the others stay. -/
theorem RepairedTo.getElem?_arena (hb : b.ArenaValid) (h : b.RepairedTo r) (h' : b.RepairedTo r')
    {n : Nat} (hn : n < b.arena.length) : r.arena[n]? = r'.arena[n]? := by
  by_cases hlive : ∃ id ∈ b.order, id.slot = n
  · obtain ⟨id, hid, rfl⟩ := hlive
    obtain ⟨p, hp⟩ := mem_order_iff.mp hid
    obtain ⟨i, hi⟩ := hb.exists_get? hid
    obtain ⟨j, hj, hmended⟩ := h.instructions p id i hp hi
    obtain ⟨j', hj', hmended'⟩ := h'.instructions p id i hp hi
    rw [get?] at hj hj'
    rw [hj, hj', hmended.unique hmended']
  · push Not at hlive
    rw [h.dead_slots n hn hlive, h'.dead_slots n hn hlive]

/-- Two results agree on the places of the old sequence, and so on whether it is closed. -/
theorem RepairedTo.closedAt_iff (hb : b.ArenaValid) (hne : b.order ≠ []) (h : b.RepairedTo r)
    (h' : b.RepairedTo r') : r.ClosedAt b.length ↔ r'.ClosedAt b.length := by
  have hpos : 0 < b.length := List.length_pos_of_ne_nil hne
  obtain ⟨id, hid⟩ := exists_idAt? (show b.length - 1 < b.length by omega)
  have hslot := hb.slot_lt id (mem_order_iff.mpr ⟨_, hid⟩)
  have hplace : r.at? (b.length - 1) = r'.at? (b.length - 1) := by
    rw [at?_of_idAt? (idAt?_extend h.prefix_order hid),
      at?_of_idAt? (idAt?_extend h'.prefix_order hid), get?, get?,
      h.getElem?_arena hb h' hslot]
  rw [ClosedAt, ClosedAt, hplace]

/-- Two results have the same code.  If one appends a return so does the other, because both ask the
old last place. -/
theorem RepairedTo.code_eq (hb : b.ArenaValid) (hne : b.order ≠ []) (h : b.RepairedTo r)
    (h' : b.RepairedTo r') : r.order = r'.order ∧ r.arena = r'.arena := by
  by_cases hclosed : r.ClosedAt b.length
  · have hclosed' := (h.closedAt_iff hb hne h').mp hclosed
    obtain ⟨horder, hlength⟩ := h.closed hclosed
    obtain ⟨horder', hlength'⟩ := h'.closed hclosed'
    refine ⟨horder.trans horder'.symm, List.ext_getElem? fun n => ?_⟩
    by_cases hn : n < b.arena.length
    · exact h.getElem?_arena hb h' hn
    · rw [List.getElem?_eq_none (by omega), List.getElem?_eq_none (by omega)]
  · have hclosed' := mt (h.closedAt_iff hb hne h').mpr hclosed
    obtain ⟨horder, hlength, hret⟩ := h.extended hclosed
    obtain ⟨horder', hlength', hret'⟩ := h'.extended hclosed'
    refine ⟨horder.trans horder'.symm, List.ext_getElem? fun n => ?_⟩
    rcases lt_trichotomy n b.arena.length with hn | rfl | hn
    · exact h.getElem?_arena hb h' hn
    · rw [hret, hret']
    · rw [List.getElem?_eq_none (by omega), List.getElem?_eq_none (by omega)]

/-- Two results with the same code add the same number of locals. -/
theorem RepairedTo.locals_le (h : b.RepairedTo r) (h' : b.RepairedTo r')
    (hplaces : ∀ p, r.at? p = r'.at? p) : r.locals.length ≤ r'.locals.length := by
  obtain ⟨added, hlocals, -, hneeded⟩ := h.locals
  obtain ⟨added', hlocals', hdeclared', -⟩ := h'.locals
  by_cases hzero : added = 0
  · rw [hlocals, hlocals', hzero, List.length_append, List.length_append]
    simp
  · obtain ⟨p, i, index, hi, hindex, hlength⟩ := hneeded hzero
    have hlt := hdeclared' p i (hplaces p ▸ hi) index hindex
    omega

/-- **The specification determines the result.**  The code comes first; with the same code two
results declare the same locals and keep the same handlers. -/
theorem RepairedTo.unique (hb : b.ArenaValid) (hne : b.order ≠ []) (h : b.RepairedTo r)
    (h' : b.RepairedTo r') : r = r' := by
  obtain ⟨horder, harena⟩ := h.code_eq hb hne h'
  have hplaces : ∀ p, r.at? p = r'.at? p := fun p => by
    simp only [at?, idAt?, horder]
    congr 1
    funext id
    rw [get?, get?, harena]
  -- Both results keep the handlers that are valid, and they agree on which are.
  have hhandlers : r.handlers = r'.handlers := by
    obtain ⟨first, last, mended, valid, hfirst, hlast, hmended, hvalid, hkept⟩ := h.handlers
    obtain ⟨first', last', mended', valid', hfirst', hlast', hmended', hvalid', hkept'⟩ :=
      h'.handlers
    obtain rfl : first = first' := Option.some.inj (hfirst.symm.trans hfirst')
    obtain rfl : last = last' := Option.some.inj (hlast.symm.trans hlast')
    obtain rfl : valid = valid' := funext fun x =>
      Bool.eq_iff_iff.mpr ((hvalid x).trans (hvalid' x).symm)
    rw [ExceptionHandler.forall₂_mendedTo_iff] at hmended hmended'
    rw [hkept, hkept', hmended, hmended']
  -- Both add locals until those of the same code are declared.
  have hlocals : r.locals = r'.locals := by
    have hlength := Nat.le_antisymm (h.locals_le h' hplaces)
      (h'.locals_le h fun p => (hplaces p).symm)
    obtain ⟨added, hlocals, -⟩ := h.locals
    obtain ⟨added', hlocals', -⟩ := h'.locals
    rw [hlocals, hlocals', List.length_append, List.length_append, List.length_replicate,
      List.length_replicate, Nat.add_left_cancel_iff] at hlength
    rw [hlocals, hlocals', hlength]
  rcases r with ⟨arena, order, locals, handlers, maxStack, initLocals⟩
  rcases r' with ⟨arena', order', locals', handlers', maxStack', initLocals'⟩
  obtain rfl : maxStack = maxStack' := h.maxStack.trans h'.maxStack.symm
  obtain rfl : initLocals = initLocals' := h.initLocals.trans h'.initLocals.symm
  simp_all

/-! ### The repaired body, part by part -/

/-- The repaired arena is the relinked one, and a return if control could fall off the end. -/
theorem arena_repair (b : MethodBody) :
    b.repair.1.arena =
      b.relinked.arena ++ if b.relinked.endsTerminal = true then [] else [.ret] := by
  rw [repair_fst]
  change b.relinked.terminate.1.arena = _
  by_cases h : b.relinked.endsTerminal = true
  · rw [terminate_of_endsTerminal h, if_pos h, List.append_nil]
  · rw [terminate_of_not_endsTerminal h, if_neg h, arena_push]

/-- Closing the body and declaring locals change none of the old slots, -/
theorem getElem?_arena_repair {n : Nat} (hn : n < b.arena.length) :
    b.repair.1.arena[n]? = b.relinked.arena[n]? := by
  rw [arena_repair, List.getElem?_append_left (by simpa using hn)]

/-- and so no instruction that was there before relinking. -/
theorem get?_repair (hid : id.slot < b.arena.length) :
    b.repair.1.get? id = b.relinked.get? id := getElem?_arena_repair hid

/-- **What repair leaves at a place of the old sequence** is the instruction with its operand
repaired, the fallback being that of the place. -/
theorem at?_repair (hb : b.ArenaValid) (hi : b.at? p = some i) :
    b.repair.1.at? p = some (repairOperand b.isLive (b.fallback p) i).1 := by
  obtain ⟨id, hid, -⟩ := at?_eq_some_iff.mp hi
  have hrepaired : b.repair.1.idAt? p = some id :=
    idAt?_extend (b.order_repair ▸ List.prefix_append _ _) hid
  have hrelinked : b.relinked.idAt? p = some id := by rw [idAt?, order_relinked, ← idAt?, hid]
  rw [at?_of_idAt? hrepaired, get?_repair (hb.slot_lt id (mem_order_iff.mpr ⟨p, hid⟩)),
    ← at?_of_idAt? hrelinked, at?_relinked hb hi]

/-- A pass over operands writes to live slots only. -/
theorem getElem?_arena_relinked {n : Nat} (hn : ∀ id ∈ b.order, id.slot ≠ n) :
    b.relinked.arena[n]? = b.arena[n]? := by
  rw [relinked, arena_repairHandlers, repairTargets]
  split
  · rfl
  · exact getElem?_sweep_of_ne _ hn _ _

/-- The end of the relinked body is the old last place of the repaired one. -/
theorem closedAt_repair_iff (hb : b.ArenaValid) (hne : b.order ≠ []) :
    b.repair.1.ClosedAt b.length ↔ b.relinked.endsTerminal = true := by
  have hpos : 0 < b.length := List.length_pos_of_ne_nil hne
  obtain ⟨i, hi⟩ := hb.exists_at? (show b.length - 1 < b.length by omega)
  rw [endsTerminal_iff, ClosedAt, length_relinked, at?_repair hb hi, at?_relinked hb hi]

/-- The test of a handler looks at the sequence alone, and so does that for live identities. -/
theorem isWellOrdered_congr {c : MethodBody} (h : c.order = b.order) :
    c.isWellOrdered = b.isWellOrdered := by
  funext x
  simp only [isWellOrdered, lastPosition?, length, h]

theorem isLive_congr {c : MethodBody} (h : c.order = b.order) : c.isLive = b.isLive := by
  funext id
  rw [isLive, isLive, h]

/-- **The handlers of a repaired body:** boundaries first, and then the handlers that are in order.
The return is not there yet when boundaries fall back on the last instruction. -/
theorem handlers_repair {first last : InstrId} (hfirst : b.first? = some first)
    (hlast : b.last? = some last) :
    b.repair.1.handlers =
      (b.handlers.map (reviveBoundaries b.isLive first last)).filter b.isWellOrdered := by
  have horder : b.repairTargets.1.order = b.order := order_repairTargets b
  have hhandlers : b.repair.1.handlers = b.repairTargets.1.repairHandlers.1.handlers := by
    rw [repair_fst]
    change b.relinked.terminate.1.handlers = _
    rw [terminate]
    split <;> rfl
  have hfirst' : b.repairTargets.1.first? = some first := by rw [first?, horder, ← first?, hfirst]
  have hlast' : b.repairTargets.1.last? = some last := by rw [last?, horder, ← last?, hlast]
  rw [hhandlers, repairHandlers, hfirst', hlast']
  simp only [handlers_repairTargets, isLive_congr horder, isWellOrdered_congr horder]

/-- The locals of a repaired body: the last one that was added is in use.  So no more are declared
than are needed, although some in between may be unused. -/
theorem locals_repair (b : MethodBody) :
    ∃ added, b.repair.1.locals = b.locals ++ List.replicate added ⟨none, .object⟩ ∧
      b.repair.1.LocalsDeclared ∧ (added ≠ 0 → ∃ p i index, b.repair.1.at? p = some i ∧
        i.local? = some index ∧ b.repair.1.locals.length = index.toNat + 1) := by
  have hold : b.relinked.terminate.1.locals = b.locals := by
    rw [terminate]
    split <;> simp [push]
  refine ⟨b.relinked.terminate.1.requiredLocals - b.locals.length, ?_,
    localsDeclared_declareLocals _, fun hadded => ?_⟩
  · rw [repair_fst, declareLocals, hold]
  · -- One local fewer would not be enough, and so the last one is in use.
    have hlength : b.repair.1.locals.length = b.relinked.terminate.1.requiredLocals := by
      rw [repair_fst, length_locals_declareLocals, hold]
      omega
    have hshort : ¬ b.relinked.terminate.1.requiredLocals ≤
        b.relinked.terminate.1.requiredLocals - 1 := by omega
    have hall := requiredLocals_le_iff.mp (Nat.le_refl b.relinked.terminate.1.requiredLocals)
    rw [requiredLocals_le_iff] at hshort
    push Not at hshort
    obtain ⟨p, i, hi, index, hindex, hge⟩ := hshort
    have hlt := hall p i hi index hindex
    exact ⟨p, i, index, hi, hindex, by omega⟩

/-- Repair does not touch the header, neither the maximum of the stack nor the flag for locals. -/
theorem frame_repair (b : MethodBody) :
    b.repair.1.maxStack = b.maxStack ∧ b.repair.1.initLocals = b.initLocals := by
  have htargets : b.repairTargets.1.maxStack = b.maxStack ∧
      b.repairTargets.1.initLocals = b.initLocals := by
    rw [repairTargets]
    split <;> exact ⟨rfl, rfl⟩
  have hrelinked : b.relinked.maxStack = b.maxStack ∧ b.relinked.initLocals = b.initLocals := by
    rw [relinked]
    rcases b.repairTargets.1.repairHandlers_cases with ⟨-, h⟩ | ⟨_, _, _, -, -, -, h⟩ <;>
      · rw [h]
        exact htargets
  have hterminate : b.relinked.terminate.1.maxStack = b.relinked.maxStack ∧
      b.relinked.terminate.1.initLocals = b.relinked.initLocals := by
    rw [terminate]
    split <;> exact ⟨rfl, rfl⟩
  exact ⟨hterminate.1.trans hrelinked.1, hterminate.2.trans hrelinked.2⟩

/-! ### Repair meets the specification -/

/-- **Repair meets its specification.**  Each clause is one of the lemmas above. -/
theorem repairedTo_repair (hb : b.ArenaValid) (hne : b.order ≠ []) :
    b.RepairedTo b.repair.1 where
  instructions p id i hid hi := by
    refine ⟨_, ?_, Instruction.mendedTo_repairOperand b.isLive (b.fallback p) i⟩
    have hrepaired : b.repair.1.idAt? p = some id :=
      idAt?_extend (b.order_repair ▸ List.prefix_append _ _) hid
    rw [← at?_of_idAt? hrepaired]
    exact at?_repair hb (at?_eq_some_iff.mpr ⟨id, hid, hi⟩)
  dead_slots n hn hdead := by rw [getElem?_arena_repair hn, getElem?_arena_relinked hdead]
  closed hclosed := by
    have hend := (closedAt_repair_iff hb hne).mp hclosed
    rw [order_repair, arena_repair, if_pos hend, if_pos hend]
    simp
  extended hopen := by
    have hend := mt (closedAt_repair_iff hb hne).mpr hopen
    rw [order_repair, arena_repair, if_neg hend, if_neg hend]
    refine ⟨by rw [fresh, fresh, length_arena_relinked], by simp, ?_⟩
    rw [← length_arena_relinked, List.getElem?_concat_length]
  handlers := by
    obtain ⟨first, hfirst⟩ : ∃ first, b.first? = some first := ⟨_, List.head?_eq_some_head hne⟩
    obtain ⟨last, hlast⟩ : ∃ last, b.last? = some last := ⟨_, List.getLast?_eq_some_getLast hne⟩
    exact ⟨first, last, _, b.isWellOrdered, hfirst, hlast,
      ExceptionHandler.forall₂_mendedTo_iff.mpr rfl, fun _ => isWellOrdered_iff hb,
      handlers_repair hfirst hlast⟩
  locals := locals_repair b
  maxStack := (frame_repair b).1
  initLocals := (frame_repair b).2

/-- **A valid handler survives as it is,** since all its boundaries are live and it stays in
order. -/
theorem mem_handlers_repair_of_valid (hb : b.ArenaValid) (hne : b.order ≠ [])
    {h : ExceptionHandler} (hh : h ∈ b.handlers) (hvalid : b.HandlerValid h) :
    h ∈ b.repair.1.handlers := by
  obtain ⟨first, last, mended, valid, -, -, hmended, hiff, hkept⟩ :=
    (repairedTo_repair hb hne).handlers
  -- The boundaries of a valid handler are live, so that none of them is replaced.
  have hsame : reviveBoundaries b.isLive first last h = h := reviveBoundaries_of_live
    fun id hid => isLive_iff.mpr (hvalid.1.boundaries_live hvalid.2 id hid)
  rw [hkept, ExceptionHandler.forall₂_mendedTo_iff.mp hmended, List.mem_filter]
  exact ⟨List.mem_map.mpr ⟨h, hh, hsame⟩, (hiff h).mpr hvalid⟩

/-- **Repair touches only what is broken, and does to it exactly what is specified:** the repaired
body is the one body that meets the specification.  Handlers that were valid survive as they are,
and the appended return gets a new identity while there is one. -/
theorem repair_touches_only_broken (b : MethodBody) (hb : b.ArenaValid) (hne : b.order ≠ []) :
    (∀ r, b.RepairedTo r ↔ r = b.repair.1) ∧
      (∀ h ∈ b.handlers, b.HandlerValid h → h ∈ b.repair.1.handlers) ∧
      (b.arena.length < UInt32.size → b.fresh.slot = b.arena.length ∧ b.fresh ∉ b.order) := by
  have hmeets := repairedTo_repair hb hne
  exact ⟨fun r => ⟨fun h => h.unique hb hne hmeets, fun h => h ▸ hmeets⟩,
    fun h hh hvalid => mem_handlers_repair_of_valid hb hne hh hvalid,
    fun hroom => ⟨slot_fresh hroom, fresh_notMem hb hroom⟩⟩

/-- `damagedBody` has a clause of each kind at work. -/
theorem damagedBody_only_broken :
    damagedBody.ArenaValid ∧ damagedBody.order ≠ [] ∧ damagedBody.RepairedTo damagedBody.repair.1 ∧
      damagedBody.repair.1.order = damagedBody.order ++ [⟨6⟩] :=
  ⟨by decide, by decide,
    ((repair_touches_only_broken damagedBody (by decide) (by decide)).1 _).mpr rfl, by decide⟩

end MethodBody

end CilRepair
