import CilRepair.Proofs.Identities

/-!
# Replacement

To replace an instruction is to splice its replacement into the sequence and to move what named the
old instruction to the first of the new ones.  The insertions go in front of the old instruction,
place by place, so that it is moved on and removed at the end; the new instructions are in the
sequence when references are moved, and may name the old one themselves.

* `MethodBody.insertAll_eq` — instructions put in at a place: new slots, and their identities there.
* `MethodBody.Spliced` — what a replacement leaves.
* `MethodBody.replacement_splices` — the main theorem.

## Design notes

The sequence is taken apart as `before ++ old :: after`, so that the place of the old instruction is
the length of a list and no proof computes with indices.  The body between insertion and removal has
both the old and the new instructions and is valid; what is moved and removed afterwards is stated
of that body.

The replacement may name the old instruction.  Since references are moved after the insertion, such
a reference ends at the first new instruction, as those from elsewhere do, and hence nothing names
the old one in the end.

The bound of `replacement_splices` is exact in kind: it asks for identities for all new slots, and
`fullBody_replaced_by_itself` is a replacement by one instruction for which none is left.
-/

namespace CilRepair

/-- **A reference after a replacement:** the old instruction has become the first new one. -/
def InstrId.redirect (old first id : InstrId) : InstrId := if id = old then first else id

/-- An instruction that does not name the old one is not changed.  It may name the new one
already. -/
theorem Instruction.mapTargets_redirect {old first : InstrId} {i : Instruction}
    (h : old ∉ i.targets) : i.mapTargets (InstrId.redirect old first) = i := by
  have hfixed : ∀ id ∈ i.targets, InstrId.redirect old first id = id :=
    fun id hid => if_neg fun heq : id = old => h (heq ▸ hid)
  rcases i with ⟨opcode, operand, offset⟩
  cases operand with
  | target id =>
      have hid : InstrId.redirect old first id = id := hfixed id List.mem_cons_self
      rw [mapTargets, Operand.mapTargets, hid]
  | switch ids =>
      have hids : ids.map (InstrId.redirect old first) = ids :=
        (List.map_congr_left hfixed).trans (List.map_id ids)
      rw [mapTargets, Operand.mapTargets, hids]
  | _ => rfl

/-- The look-up in a single pair is a redirection. -/
theorem Remapping.apply_singleton (old first : InstrId) :
    Remapping.apply [(old, first)] = InstrId.redirect old first := by
  funext id
  rw [apply, find?, List.lookup_cons, List.lookup_nil, InstrId.redirect]
  by_cases h : id = old
  · simp [h]
  · simp [h, beq_false_of_ne h]

namespace MethodBody

variable {b c : MethodBody} {old first id : InstrId} {ids before after : List InstrId}
  {replacement : List Instruction}

/-! ### Insertions -/

/-- The identities that the next instructions get. -/
def nextIds (b : MethodBody) (n : Nat) : List InstrId :=
  (List.range' b.arena.length n).map InstrId.nth

/-- **Instructions put in at a place** take the next slots, and their identities stand there in
their order.  By induction on the instructions: each insertion moves the place on by one. -/
theorem insertAll_eq (h : b.order = before ++ after) (is : List Instruction) :
    b.insertAll before.length is =
      ({ b with
          arena := b.arena ++ is
          order := before ++ b.nextIds is.length ++ after }, b.nextIds is.length) := by
  induction is generalizing b before with
  | nil => simp [insertAll, nextIds, ← h]
  | cons i is ih =>
      have horder : (b.insert before.length i).order = (before ++ [b.fresh]) ++ after := by
        rw [insert, h, Nat.min_eq_left (by simp), insertIdx_length_append]
        simp
      have hids : b.nextIds (is.length + 1) =
          b.fresh :: (b.insert before.length i).nextIds is.length := by
        rw [nextIds, nextIds, List.range'_succ, length_arena_insert]
        rfl
      have hrest := ih horder
      rw [List.length_append, List.length_singleton] at hrest
      rw [insertAll, hrest, List.length_cons, hids]
      simp [insert]

/-- The next identities are counted from the number of slots on. -/
theorem mem_nextIds {n : Nat} :
    id ∈ b.nextIds n ↔ ∃ k < n, InstrId.nth (b.arena.length + k) = id := by
  simp only [nextIds, List.mem_map, List.mem_range'_1]
  constructor
  · rintro ⟨slot, ⟨hle, hlt⟩, rfl⟩
    exact ⟨slot - b.arena.length, by omega, by rw [Nat.add_sub_cancel' hle]⟩
  · rintro ⟨k, hk, rfl⟩
    exact ⟨b.arena.length + k, ⟨by omega, by omega⟩, rfl⟩

section Room

variable {n : Nat} (hroom : b.arena.length + n ≤ UInt32.size)

include hroom

/-- They name the slots with these numbers, as long as identities are left. -/
theorem slot_nextId {k : Nat} (hk : k < n) :
    (InstrId.nth (b.arena.length + k)).slot = b.arena.length + k :=
  InstrId.slot_nth (by omega)

/-- New identities have slots behind those of the body. -/
theorem le_slot_of_mem_nextIds (h : id ∈ b.nextIds n) : b.arena.length ≤ id.slot := by
  obtain ⟨k, hk, rfl⟩ := mem_nextIds.mp h
  rw [slot_nextId hroom hk]
  exact Nat.le_add_right _ _

/-- No two of them are the same. -/
theorem nodup_nextIds : (b.nextIds n).Nodup := by
  refine List.Nodup.map_on (fun p hp q hq heq => ?_) List.nodup_range'
  have hp := List.mem_range'_1.mp hp
  have hq := List.mem_range'_1.mp hq
  exact InstrId.nth_inj (by omega) (by omega) heq

end Room

/-! ### The body between insertion and removal -/

section Insertion

variable (horder : b.order = before ++ after)

include horder

/-- The new identities stand between those before the place and those after it, -/
theorem order_insertAll (is : List Instruction) :
    (b.insertAll before.length is).1.order = before ++ b.nextIds is.length ++ after := by
  rw [insertAll_eq horder]

/-- their slots are the last ones, -/
theorem arena_insertAll (is : List Instruction) :
    (b.insertAll before.length is).1.arena = b.arena ++ is := by
  rw [insertAll_eq horder]

/-- and handlers are as they were. -/
theorem handlers_insertAll (is : List Instruction) :
    (b.insertAll before.length is).1.handlers = b.handlers := by
  rw [insertAll_eq horder]

/-- The instructions that the body had are where they were, since slots are only added behind
them. -/
theorem get?_insertAll_of_mem (hb : b.ArenaValid) (is : List Instruction) (hid : id ∈ b.order) :
    (b.insertAll before.length is).1.get? id = b.get? id := by
  rw [get?, arena_insertAll horder, List.getElem?_append_left (hb.slot_lt id hid), get?]

variable (hroom : b.arena.length + replacement.length ≤ UInt32.size)

include hroom

theorem arenaValid_insertAll (hb : b.ArenaValid) :
    (b.insertAll before.length replacement).1.ArenaValid := by
  refine (keepsValid_insertAll b before.length replacement).valid ?_ hb
  rwa [Addressable, arena_insertAll horder, List.length_append]

/-- The new identities name the new instructions.  Later ones go to later slots and overwrite
none. -/
theorem map_get?_nextIds :
    (b.nextIds replacement.length).map (b.insertAll before.length replacement).1.get? =
      replacement.map some := by
  refine List.ext_getElem? fun k => ?_
  rw [nextIds, List.map_map, List.getElem?_map, List.getElem?_map]
  by_cases hk : k < replacement.length
  · rw [List.getElem?_range' hk, Nat.one_mul, Option.map_some, Function.comp_apply, get?,
      slot_nextId hroom hk, arena_insertAll horder,
      List.getElem?_append_right (Nat.le_add_right _ _), Nat.add_sub_cancel_left,
      List.getElem?_eq_getElem hk]
    rfl
  · rw [List.getElem?_eq_none (by rw [List.length_range']; omega),
      List.getElem?_eq_none (Nat.not_lt.mp hk)]
    rfl

/-- Behind each new identity there is an instruction of the replacement. -/
theorem exists_get?_of_mem_nextIds (hid : id ∈ b.nextIds replacement.length) :
    ∃ i ∈ replacement, (b.insertAll before.length replacement).1.get? id = some i := by
  have hmem := List.mem_map_of_mem hid (f := (b.insertAll before.length replacement).1.get?)
  rw [map_get?_nextIds horder hroom] at hmem
  obtain ⟨i, hi, hget⟩ := List.mem_map.mp hmem
  exact ⟨i, hi, hget.symm⟩

/-- What is named between insertion and removal was named before, or is named by the
replacement. -/
theorem mem_references_insertAll (hb : b.ArenaValid)
    (hid : id ∈ (b.insertAll before.length replacement).1.references) :
    id ∈ b.references ∨ ∃ i ∈ replacement, id ∈ i.targets := by
  rcases List.mem_append.mp hid with hid | hid
  · obtain ⟨i, hi, htarget⟩ := List.mem_flatMap.mp hid
    obtain ⟨holder, hholder, hget⟩ := List.mem_filterMap.mp hi
    rw [order_insertAll horder, List.mem_append, List.mem_append, or_right_comm,
      ← List.mem_append, ← horder] at hholder
    rcases hholder with hold | hnew
    · rw [get?_insertAll_of_mem horder hb _ hold] at hget
      exact Or.inl (mem_references_of_target hold hget htarget)
    · obtain ⟨j, hj, hjget⟩ := exists_get?_of_mem_nextIds horder hroom hnew
      obtain rfl := Option.some.inj (hget.symm.trans hjget)
      exact Or.inr ⟨i, hj, htarget⟩
  · rw [handlers_insertAll horder] at hid
    exact Or.inl (List.mem_append_right _ hid)

end Insertion

/-- What is named after a removal was named before. -/
theorem references_remove_subset (b : MethodBody) (id : InstrId) :
    (b.remove id).references ⊆ b.references := by
  intro target htarget
  rcases List.mem_append.mp htarget with h | h
  · obtain ⟨i, hi, hmem⟩ := List.mem_flatMap.mp h
    obtain ⟨holder, hholder, hget⟩ := List.mem_filterMap.mp hi
    exact mem_references_of_target (List.mem_of_mem_erase hholder) hget hmem
  · exact List.mem_append_right _ h

/-! ### Splices -/

/-- **A clean splice:** `old` is replaced, `ids` are the new instructions, and `first` is the first
of them. -/
structure Spliced (b : MethodBody) (old : InstrId) (replacement : List Instruction)
    (c : MethodBody) (ids : List InstrId) (first : InstrId) : Prop where
  head_eq : ids.head? = some first
  nodup : ids.Nodup
  new : ∀ id ∈ ids, b.get? id = none
  /-- The new identities stand where the old one stood. -/
  order_eq : ∃ before after, b.order = before ++ old :: after ∧ c.order = before ++ ids ++ after
  /-- What named the old instruction names the first of the new ones, and nothing else changes:
  neither in the new instructions, -/
  new_eq : ids.map c.get? =
    replacement.map fun i => some (i.mapTargets (InstrId.redirect old first))
  /-- nor in the other live ones, -/
  live_eq : ∀ id ∈ b.order, id ≠ old →
    c.get? id = (b.get? id).map (·.mapTargets (InstrId.redirect old first))
  /-- nor in the handlers. -/
  handlers_eq : c.handlers = b.handlers.map (·.mapBoundaries (InstrId.redirect old first))
  /-- A live instruction that did not name the old one is what it was. -/
  others_eq : ∀ id ∈ b.order, id ≠ old → ∀ i, b.get? id = some i → old ∉ i.targets →
    c.get? id = some i
  unnamed : old ∉ c.references
  references_live : (∀ id ∈ b.references, id ∈ b.order) →
    (∀ i ∈ replacement, ∀ id ∈ i.targets, id ∈ b.order) → ∀ id ∈ c.references, id ∈ c.order
  locals_eq : c.locals = b.locals
  header_eq : c.maxStack = b.maxStack ∧ c.initLocals = b.initLocals
  valid : c.arenaFault? = none

/-- The body with a replacement in front of the old instruction, references moved to its first, and
the old instruction removed. -/
def splice (b : MethodBody) (position : Nat) (old : InstrId) (replacement : List Instruction) :
    MethodBody :=
  ((b.insertAll position replacement).1.remap [(old, b.fresh)]).1.remove old

/-- The first new identity is the next one of the body. -/
theorem head?_nextIds (hne : replacement ≠ []) :
    (b.nextIds replacement.length).head? = some b.fresh := by
  obtain ⟨i, is, rfl⟩ := List.exists_cons_of_ne_nil hne
  rw [nextIds, List.length_cons, List.range'_succ]
  rfl

theorem fresh_mem_nextIds (hne : replacement ≠ []) : b.fresh ∈ b.nextIds replacement.length :=
  List.mem_of_head? (head?_nextIds hne)

/-- **A replacement is a splice** at the place of the old instruction.  The search for the first
place finds it, since the sequence names each identity once. -/
theorem replace?_eq_splice (horder : b.order = before ++ old :: after) (hb : b.ArenaValid)
    (hne : replacement ≠ []) :
    b.replace? old replacement =
      some (b.splice before.length old replacement, b.nextIds replacement.length) := by
  obtain ⟨i, is, rfl⟩ := List.exists_cons_of_ne_nil hne
  have hposition : b.position? old = some before.length := by
    rw [position?_eq_some_iff hb, idAt?, horder, List.getElem?_append_right le_rfl, Nat.sub_self]
    rfl
  have hids : (b.insertAll before.length (i :: is)).2 = b.nextIds (i :: is).length := by
    rw [insertAll_eq horder]
  simp only [replace?, hposition, hids]
  rfl

section Splice

variable (horder : b.order = before ++ old :: after) (hb : b.ArenaValid)
  (hroom : b.arena.length + replacement.length ≤ UInt32.size)

include horder hb hroom

/-- The old instruction stands behind the new ones when it is removed, and only there.  The new
identities are none of the old ones, so that the removal takes one place. -/
theorem order_splice :
    (b.splice before.length old replacement).order =
      before ++ b.nextIds replacement.length ++ after := by
  have hinserted := order_insertAll horder replacement
  have hnodup := (arenaValid_insertAll horder hroom hb).nodup
  rw [hinserted] at hnodup
  have hnotMem : old ∉ before ++ b.nextIds replacement.length :=
    fun hmem => List.disjoint_of_nodup_append hnodup hmem List.mem_cons_self
  calc (b.splice before.length old replacement).order
      = (b.insertAll before.length replacement).1.order.erase old := rfl
    _ = (before ++ b.nextIds replacement.length ++ old :: after).erase old := by rw [hinserted]
    _ = before ++ b.nextIds replacement.length ++ after := by
      rw [List.erase_append_right _ hnotMem, List.erase_cons_head]

/-- **What a splice leaves in a slot:** the instruction that was put there, with what it names
moved. -/
theorem get?_splice (hid : id ∈ (b.insertAll before.length replacement).1.order) :
    (b.splice before.length old replacement).get? id =
      ((b.insertAll before.length replacement).1.get? id).map
        (·.mapTargets (InstrId.redirect old b.fresh)) := by
  rw [← Remapping.apply_singleton]
  exact get?_remap _ (arenaValid_insertAll horder hroom hb) hid

/-- **What a splice names** was named before, by the body or by the replacement, and has been
moved. -/
theorem mem_references_splice (hid : id ∈ (b.splice before.length old replacement).references) :
    ∃ target, InstrId.redirect old b.fresh target = id ∧
      (target ∈ b.references ∨ ∃ i ∈ replacement, target ∈ i.targets) := by
  have hmoved := references_remove_subset _ _ hid
  rw [references_remap _ (arenaValid_insertAll horder hroom hb),
    Remapping.apply_singleton] at hmoved
  obtain ⟨target, htarget, rfl⟩ := List.mem_map.mp hmoved
  exact ⟨target, rfl, mem_references_insertAll horder hroom hb htarget⟩

/-- The sequence stays valid, as a removal only takes from it. -/
theorem arenaValid_splice : (b.splice before.length old replacement).ArenaValid :=
  (arenaValid_insertAll horder hroom hb).sweep _ _ |>.thin ⟨List.erase_sublist, rfl⟩

/-- The replacement stands where the old instruction stood, and what it names is moved.  An
instruction that named the old one names the first new one now, even if it is that itself. -/
theorem map_get?_splice :
    (b.nextIds replacement.length).map (b.splice before.length old replacement).get? =
      replacement.map fun i => some (i.mapTargets (InstrId.redirect old b.fresh)) := by
  have hmoved : ∀ id ∈ b.nextIds replacement.length,
      (b.splice before.length old replacement).get? id =
        ((b.insertAll before.length replacement).1.get? id).map
          (·.mapTargets (InstrId.redirect old b.fresh)) := fun id hid => by
    refine get?_splice horder hb hroom ?_
    rw [order_insertAll horder]
    exact List.mem_append_left _ (List.mem_append_right _ hid)
  calc (b.nextIds replacement.length).map (b.splice before.length old replacement).get?
      = (b.nextIds replacement.length).map fun id =>
          ((b.insertAll before.length replacement).1.get? id).map
            (·.mapTargets (InstrId.redirect old b.fresh)) := List.map_congr_left hmoved
    _ = ((b.nextIds replacement.length).map (b.insertAll before.length replacement).1.get?).map
          (Option.map (·.mapTargets (InstrId.redirect old b.fresh))) := by
      rw [List.map_map]
      rfl
    _ = replacement.map fun i => some (i.mapTargets (InstrId.redirect old b.fresh)) := by
      rw [map_get?_nextIds horder hroom, List.map_map]
      rfl

/-- The first new instruction is not the old one, so that no moved reference names that. -/
theorem redirect_fresh_ne (hne : replacement ≠ []) (id : InstrId) :
    InstrId.redirect old b.fresh id ≠ old := by
  rw [InstrId.redirect]
  split
  · have hslot := le_slot_of_mem_nextIds hroom (fresh_mem_nextIds hne)
    have hold : old ∈ b.order := horder ▸ List.mem_append_right _ List.mem_cons_self
    exact fun heq => absurd (hb.slot_lt old hold) (Nat.not_lt.mpr (heq ▸ hslot))
  · assumption

/-- A reference that was live is live after it has been moved. -/
theorem redirect_mem_order_splice (hne : replacement ≠ []) (hid : id ∈ b.order) :
    InstrId.redirect old b.fresh id ∈ (b.splice before.length old replacement).order := by
  rw [order_splice horder hb hroom, InstrId.redirect]
  split
  · exact List.mem_append_left _ (List.mem_append_right _ (fresh_mem_nextIds hne))
  · next hother =>
      rw [horder, List.mem_append, List.mem_cons] at hid
      rcases hid with hmem | hmem | hmem
      · exact List.mem_append_left _ (List.mem_append_left _ hmem)
      · exact absurd hmem hother
      · exact List.mem_append_right _ hmem

/-- **A splice is clean.**  Each clause comes from one of the lemmas above. -/
theorem spliced_splice (hne : replacement ≠ []) :
    b.Spliced old replacement (b.splice before.length old replacement)
      (b.nextIds replacement.length) b.fresh := by
  -- Old instructions are where they were, with what they name moved.
  have hkept : ∀ id ∈ b.order, (b.splice before.length old replacement).get? id =
      (b.get? id).map (·.mapTargets (InstrId.redirect old b.fresh)) := fun id hid => by
    have hmem := order_subset_insertAll b before.length replacement hid
    rw [get?_splice horder hb hroom hmem, get?_insertAll_of_mem horder hb _ hid]
  exact
    { head_eq := head?_nextIds hne
      nodup := nodup_nextIds hroom
      new := fun id hid => List.getElem?_eq_none (le_slot_of_mem_nextIds hroom hid)
      order_eq := ⟨before, after, horder, order_splice horder hb hroom⟩
      new_eq := map_get?_splice horder hb hroom
      live_eq := fun id hid _ => hkept id hid
      others_eq := fun id hid _ i hi hnot => by
        rw [hkept id hid, hi, Option.map_some, Instruction.mapTargets_redirect hnot]
      handlers_eq := by
        rw [← Remapping.apply_singleton, ← handlers_insertAll horder replacement]
        rfl
      unnamed := fun hmem => by
        obtain ⟨target, htarget, -⟩ := mem_references_splice horder hb hroom hmem
        exact redirect_fresh_ne horder hb hroom hne target htarget
      references_live := fun hbody hreplacement id hid => by
        obtain ⟨target, rfl, hnamed⟩ := mem_references_splice horder hb hroom hid
        rcases hnamed with hnamed | ⟨i, hi, hnamed⟩
        · exact redirect_mem_order_splice horder hb hroom hne (hbody target hnamed)
        · exact redirect_mem_order_splice horder hb hroom hne (hreplacement i hi target hnamed)
      locals_eq := congrArg (fun result => result.1.locals) (insertAll_eq horder replacement)
      header_eq := ⟨congrArg (fun result => result.1.maxStack) (insertAll_eq horder replacement),
        congrArg (fun result => result.1.initLocals) (insertAll_eq horder replacement)⟩
      valid := arenaFault?_eq_none_iff.mpr (arenaValid_splice horder hb hroom) }

end Splice

/-- A replacement is refused if there is nothing to replace or nothing to replace it by.  In both
cases the body stays as it is. -/
theorem replace?_eq_none_iff (hb : b.ArenaValid) :
    b.replace? old replacement = none ↔ old ∉ b.order ∨ replacement = [] := by
  by_cases hold : old ∈ b.order
  · obtain ⟨before, after, horder⟩ := List.append_of_mem hold
    by_cases hne : replacement = []
    · simp [hne, replace?]
    · simp [replace?_eq_splice horder hb hne, hold, hne]
  · have hposition : b.position? old = none := by
      rw [position?, List.findIdx?_eq_none_iff]
      exact fun id hid => beq_false_of_ne fun heq => hold (heq ▸ hid)
    simp only [hold, not_false_eq_true, true_or, iff_true]
    cases replacement <;> simp [replace?, hposition]

/-- **A replacement is a clean splice.**  In a body that passes the check of its arena, it is
refused exactly if the old instruction is not live or the replacement is empty, and then it changes
nothing.  Otherwise it is a splice, as `Spliced` says, as long as there are identities for the new
slots. -/
theorem replacement_splices (b : MethodBody) (hb : b.arenaFault? = none) (old : InstrId)
    (replacement : List Instruction) :
    (b.replace? old replacement = none ↔ old ∉ b.order ∨ replacement = []) ∧
    (b.replace? old replacement = none → (BodyEdit.replace old replacement).apply b = b) ∧
    ∀ c ids, b.replace? old replacement = some (c, ids) →
      b.arena.length + replacement.length ≤ UInt32.size →
      ∃ first, b.Spliced old replacement c ids first := by
  have hvalid := arenaFault?_eq_none_iff.mp hb
  refine ⟨replace?_eq_none_iff hvalid, fun hnone => ?_, fun c ids hsome hroom => ?_⟩
  · rw [BodyEdit.apply, hnone]
    rfl
  · have hlive : ¬ (old ∉ b.order ∨ replacement = []) := fun hrefused => by
      simp [(replace?_eq_none_iff hvalid).mpr hrefused] at hsome
    obtain ⟨hold, hne⟩ := not_or.mp hlive
    obtain ⟨before, after, horder⟩ := List.append_of_mem (not_not.mp hold)
    rw [replace?_eq_splice horder hvalid hne] at hsome
    obtain ⟨rfl, rfl⟩ : _ ∧ _ := by simpa using hsome
    exact ⟨b.fresh, spliced_splice horder hvalid hroom hne⟩

/-- The start of a guarded range, to which a branch, a table and a loop lead. -/
def retryingBody : MethodBody where
  arena := [.shortestLiteral 1, .of (.branch .brtrue .short) (.target ⟨2⟩), .bare .nop,
    .of .switch (.switch [⟨2⟩, ⟨0⟩]), .of (.branch .br .short) (.target ⟨2⟩), .ret]
  order := [⟨0⟩, ⟨1⟩, ⟨2⟩, ⟨3⟩, ⟨4⟩, ⟨5⟩]
  locals := []
  handlers := [.catching ⟨2⟩ ⟨4⟩ ⟨4⟩ (some ⟨5⟩) "System.Exception"]
  maxStack := 8
  initLocals := false

/-- A replacement for the start that names the start. -/
def retriedStart : List Instruction :=
  [.bare .dup, .of (.branch .brtrue .short) (.target ⟨2⟩), .bare .pop]

/-- References from a branch, from a table, from a handler and from the replacement itself end at
the first new instruction. -/
theorem retryingBody_spliced :
    retryingBody.arenaFault? = none ∧
    ∃ c, retryingBody.replace? ⟨2⟩ retriedStart = some (c, [⟨6⟩, ⟨7⟩, ⟨8⟩]) ∧
      c.order = [⟨0⟩, ⟨1⟩, ⟨6⟩, ⟨7⟩, ⟨8⟩, ⟨3⟩, ⟨4⟩, ⟨5⟩] ∧
      [⟨6⟩, ⟨7⟩, ⟨8⟩].map c.get? = [some (.bare .dup),
        some (.of (.branch .brtrue .short) (.target ⟨6⟩)), some (.bare .pop)] ∧
      c.get? ⟨3⟩ = some (.of .switch (.switch [⟨6⟩, ⟨0⟩])) ∧
      c.handlers = [.catching ⟨6⟩ ⟨4⟩ ⟨4⟩ (some ⟨5⟩) "System.Exception"] ∧
      ⟨2⟩ ∉ c.references ∧ ∀ id ∈ c.references, id ∈ c.order := by
  have hvalid : retryingBody.arenaFault? = none := by decide
  have hreplace : retryingBody.replace? ⟨2⟩ retriedStart =
      some (retryingBody.splice 2 ⟨2⟩ retriedStart, [⟨6⟩, ⟨7⟩, ⟨8⟩]) := rfl
  obtain ⟨first, hspliced⟩ :=
    (replacement_splices retryingBody hvalid ⟨2⟩ retriedStart).2.2 _ _ hreplace (by decide)
  obtain rfl : ⟨6⟩ = first := Option.some.inj hspliced.head_eq
  exact ⟨hvalid, _, hreplace, rfl, hspliced.new_eq, hspliced.live_eq ⟨3⟩ (by decide) (by decide),
    hspliced.handlers_eq, hspliced.unnamed, hspliced.references_live (by decide) (by decide)⟩

/-- **Without an identity for it the new instruction does not come to life.**  The replacement of
the only instruction is given the identity that this one has, under which the body still finds the
old instruction. -/
theorem fullBody_replaced_by_itself :
    fullBody.arenaFault? = none ∧ fullBody.get? ⟨0⟩ = some .nop ∧
      ∃ c, fullBody.replace? ⟨0⟩ [.ret] = some (c, [⟨0⟩]) ∧ c.instructions = [.nop] := by
  have horder : fullBody.order = [] ++ ⟨0⟩ :: [] := rfl
  have hids : fullBody.nextIds 1 = [⟨0⟩] := congrArg ([·]) fresh_fullBody
  have hreplace := replace?_eq_splice horder arenaValid_fullBody (List.cons_ne_nil .ret [])
  rw [List.length_singleton, hids] at hreplace
  refine ⟨arenaFault?_eq_none_iff.mpr arenaValid_fullBody, rfl, _, hreplace, ?_⟩
  have hinsert : fullBody.insertAll 0 [.ret] =
      ({ fullBody with
          arena := fullBody.arena ++ [.ret]
          order := [] ++ fullBody.nextIds 1 ++ ⟨0⟩ :: [] }, fullBody.nextIds 1) :=
    insertAll_eq horder [.ret]
  rw [splice, List.length_nil, hinsert, hids, fresh_fullBody]
  rfl

end MethodBody

end CilRepair
