import CilRepair.Proofs.FoldSites
import CilRepair.Proofs.Remapping
import CilRepair.Proofs.RepairInvariants

/-!
# Edits

The operations that code outside of this library may use on a body, as data, and what none of them
can break: a body that comes by edits from valid ones is valid.

* `BodyEdit`, `BodyEdit.apply` — the operations.
* `MethodBody.Addressable` — every slot has an identity of its own.
* `MethodBody.KeepsValid` — from a valid body to a valid one; `keepsValid_apply` shows it for each
  edit.
* `MethodBody.EditedFrom` — the bodies that edits lead to; `EditedFrom.arenaValid` by induction.

An edit either takes identities off the sequence, or puts in the identity of a new slot, or is made
of such edits.  The arena only grows, so a body whose slots all have identities had them all the
time.

## Design notes

The edits are data, so that a statement about all operations is one statement, and a sequence of
them is a list or an inductive predicate.  What one edit keeps is `KeepsValid`, a preorder, and
sequences go by transitivity.

Validity is claimed of the result only if the result has identities for all its slots.  The
condition is put on the end and not on each step because the arena never shrinks: what holds of the
last arena holds of all before it, and no intermediate body has to be mentioned.

The third clause, about the order of what is kept, is what later shows that no identity is given out
twice and no old instruction comes back.
-/

namespace CilRepair

/-- **An operation on bodies.**  An operation with an anchor that is not live does nothing, and so
does a replacement by nothing. -/
inductive BodyEdit
  | push (i : Instruction)
  | insert (position : Nat) (i : Instruction)
  | insertBefore (anchor : InstrId) (i : Instruction)
  | insertAfter (anchor : InstrId) (i : Instruction)
  | remove (id : InstrId)
  | removeWhere (test : InstrId → Instruction → Bool)
  | clear
  | modify (id : InstrId) (f : Instruction → Instruction)
  | setLocals (locals : List LocalVar)
  | setHandlers (handlers : List ExceptionHandler)
  | setHeader (maxStack : UInt16) (initLocals : Bool)
  | updateOffsets
  | simplifyBranches
  | optimizeBranches
  | repair
  | repairAndLayOut
  | remap (m : Remapping)
  | removeNops
  | replace (old : InstrId) (replacement : List Instruction)
  | foldLiterals

/-- **The edited body.** -/
def BodyEdit.apply (b : MethodBody) : BodyEdit → MethodBody
  | push i => b.push i
  | insert position i => b.insert position i
  | insertBefore anchor i => (b.insertBefore? anchor i).getD b
  | insertAfter anchor i => (b.insertAfter? anchor i).getD b
  | remove id => b.remove id
  | removeWhere test => b.removeWhere test
  | clear => b.clear
  | modify id f => b.modify id f
  | setLocals locals => { b with locals }
  | setHandlers handlers => { b with handlers }
  | setHeader maxStack initLocals => { b with maxStack, initLocals }
  | updateOffsets => b.updateOffsets
  | simplifyBranches => b.simplifyBranches
  | optimizeBranches => b.optimizeBranches
  | repair => b.repair.1
  | repairAndLayOut => b.repairAndLayOut.1
  | remap m => (b.remap m).1
  | removeNops => b.removeNops.1
  | replace old replacement => ((b.replace? old replacement).map Prod.fst).getD b
  | foldLiterals => b.foldLiterals.1

namespace MethodBody

variable {b c d : MethodBody}

/-! ### Keeping bodies valid -/

/-- **Every slot has an identity of its own.**  Identities have thirty-two bits. -/
def Addressable (b : MethodBody) : Prop := b.arena.length ≤ UInt32.size

instance (b : MethodBody) : Decidable b.Addressable := Nat.decLe _ _

/-- **From a valid body to a valid one:** the arena does not shrink, and while there are identities
for all slots the sequence stays valid and what it holds of the old slots is what it held, less some
of it, in the same order. -/
structure KeepsValid (b c : MethodBody) : Prop where
  slots : b.arena.length ≤ c.arena.length
  valid : c.Addressable → b.ArenaValid → c.ArenaValid
  kept : c.Addressable → (c.order.filter (·.slot < b.arena.length)).Sublist b.order

/-- If the later body has identities for all its slots, so has the earlier one. -/
theorem KeepsValid.addressable (h : b.KeepsValid c) (hc : c.Addressable) : b.Addressable :=
  h.slots.trans hc

theorem KeepsValid.refl (b : MethodBody) : b.KeepsValid b :=
  ⟨le_refl _, fun _ hb => hb, fun _ => List.filter_sublist⟩

/-- Two edits in a row.  The old slots of the first body are old slots of the second. -/
theorem KeepsValid.trans (h : b.KeepsValid c) (h' : c.KeepsValid d) : b.KeepsValid d where
  slots := h.slots.trans h'.slots
  valid hd hb := h'.valid hd (h.valid (h'.addressable hd) hb)
  kept hd := by
    have hfilter : d.order.filter (·.slot < b.arena.length) =
        (d.order.filter (·.slot < c.arena.length)).filter (·.slot < b.arena.length) := by
      rw [List.filter_filter]
      refine List.filter_congr fun id _ => ?_
      rw [← Bool.decide_and, decide_eq_decide]
      exact ⟨fun hid => ⟨hid, hid.trans_le h.slots⟩, And.left⟩
    rw [hfilter]
    exact ((h'.kept hd).filter _).trans (h.kept (h'.addressable hd))

/-- To lose a part of the sequence does no harm. -/
theorem Thins.keepsValid (h : b.Thins c) : b.KeepsValid c :=
  ⟨h.slots.ge, fun _ hb => hb.thin h, fun _ => List.filter_sublist.trans h.order⟩

/-- Bodies with the same code have the same sequence and as many slots. -/
theorem thins_of_erased_eq (h : c.erased = b.erased) : b.Thins c where
  order := by rw [order_of_erased_eq h]
  slots := by simpa [erased] using congrArg (fun x => x.arena.length) h

/-! ### Insertions -/

theorem length_arena_insert (b : MethodBody) (position : Nat) (i : Instruction) :
    (b.insert position i).arena.length = b.arena.length + 1 := by
  rw [insert, List.length_append, List.length_singleton]

/-- **A new instruction keeps the arena valid,** wherever it is put.  Its identity is new, and names
the slot behind all others. -/
theorem ArenaValid.insert (hb : b.ArenaValid) (hroom : b.arena.length < UInt32.size)
    (position : Nat) (i : Instruction) : (b.insert position i).ArenaValid where
  slot_lt id hid := by
    rw [length_arena_insert]
    rcases (List.mem_insertIdx (Nat.min_le_right _ _)).mp hid with rfl | hid
    · rw [slot_fresh hroom]
      exact Nat.lt_succ_self _
    · exact Nat.lt_succ_of_lt (hb.slot_lt id hid)
  nodup := by
    have hperm : (b.insert position i).order.Perm (b.fresh :: b.order) :=
      List.perm_insertIdx _ _ (Nat.min_le_right _ _)
    rw [hperm.nodup_iff]
    exact List.nodup_cons.mpr ⟨fresh_notMem hb hroom, hb.nodup⟩

/-- An insertion adds one slot and one identity, and the old ones stay in their order.  The identity
is new, so that no slot is named twice afterwards. -/
theorem keepsValid_insert (b : MethodBody) (position : Nat) (i : Instruction) :
    b.KeepsValid (b.insert position i) where
  slots := by
    rw [length_arena_insert]
    exact Nat.le_succ _
  valid haddressable hb := by
    rw [Addressable, length_arena_insert] at haddressable
    exact hb.insert haddressable position i
  kept haddressable := by
    rw [Addressable, length_arena_insert] at haddressable
    have hfresh : decide (b.fresh.slot < b.arena.length) = false := by
      rw [slot_fresh haddressable]
      exact decide_eq_false (Nat.lt_irrefl _)
    have hfilter : (b.insert position i).order.filter (·.slot < b.arena.length) =
        b.order.filter (·.slot < b.arena.length) :=
      filter_insertIdx_of_neg (p := fun id : InstrId => decide (id.slot < b.arena.length)) hfresh
        (Nat.min_le_right _ _)
    rw [hfilter]
    exact List.filter_sublist

/-- To append is to insert behind the last place. -/
theorem push_eq_insert (b : MethodBody) (i : Instruction) :
    b.push i = b.insert b.order.length i := by
  rw [insert, Nat.min_self, List.insertIdx_length_self]
  rfl

theorem keepsValid_push (b : MethodBody) (i : Instruction) : b.KeepsValid (b.push i) := by
  rw [push_eq_insert]
  exact keepsValid_insert b _ i

/-- By induction on the instructions. -/
theorem keepsValid_insertAll (b : MethodBody) (position : Nat) (is : List Instruction) :
    b.KeepsValid (b.insertAll position is).1 := by
  induction is generalizing b position with
  | nil => exact KeepsValid.refl b
  | cons i is ih => exact (keepsValid_insert b position i).trans (ih _ _)

/-- What replaces an instruction is inserted, named, and left in the place of the old one. -/
theorem keepsValid_replace? {old : InstrId} {replacement : List Instruction}
    {ids : List InstrId} (h : b.replace? old replacement = some (c, ids)) : b.KeepsValid c := by
  cases replacement with
  | nil => exact absurd h (by simp [replace?])
  | cons i is =>
      cases hposition : b.position? old with
      | none => exact absurd h (by simp [replace?, hposition])
      | some position =>
          simp only [replace?, hposition, Option.some.injEq, Prod.mk.injEq] at h
          obtain ⟨rfl, rfl⟩ := h
          have hinsert := keepsValid_insertAll b position (i :: is)
          exact (hinsert.trans (thins_remap _ _).keepsValid).trans
            (Thins.keepsValid ⟨List.erase_sublist, rfl⟩)

/-! ### Repair -/

/-- A return is appended or not. -/
theorem keepsValid_terminate (b : MethodBody) : b.KeepsValid b.terminate.1 := by
  rw [terminate]
  split
  · exact KeepsValid.refl b
  · exact keepsValid_push b _

/-- Of all that repair does only the return touches sequence and arena. -/
theorem keepsValid_repair (b : MethodBody) : b.KeepsValid b.repair.1 := by
  have hrelinked : b.Thins b.relinked :=
    ⟨by rw [order_relinked], length_arena_relinked b⟩
  have hdeclare : b.relinked.terminate.1.Thins b.repair.1 := ⟨List.Sublist.refl _, rfl⟩
  exact (hrelinked.keepsValid.trans (keepsValid_terminate _)).trans hdeclare.keepsValid

theorem keepsValid_repairAndLayOut (b : MethodBody) : b.KeepsValid b.repairAndLayOut.1 :=
  (keepsValid_repair b).trans (thins_of_erased_eq b.erased_repairAndLayOut).keepsValid

/-- **A repaired body whose slots all have identities had room for its return,** if it needed one:
the return is in one of its slots. -/
theorem room_of_addressable (h : b.repairAndLayOut.1.Addressable) :
    b.relinked.endsTerminal = true ∨ b.arena.length < UInt32.size := by
  by_cases hend : b.relinked.endsTerminal = true
  · exact Or.inl hend
  · right
    have hslots := (thins_of_erased_eq b.erased_repairAndLayOut).slots
    have hrepair : b.repair.1.arena.length = b.arena.length + 1 := by
      have harena : b.repair.1.arena = b.relinked.terminate.1.arena := rfl
      rw [harena, terminate_of_not_endsTerminal hend, arena_push, List.length_append,
        length_arena_relinked, List.length_singleton]
    rw [Addressable, hslots, hrepair] at h
    exact h

/-! ### All edits -/

/-- **No edit makes a valid body invalid.**  By cases on the edit; each is a thinning, an insertion,
or made of these. -/
theorem keepsValid_apply (b : MethodBody) (edit : BodyEdit) : b.KeepsValid (edit.apply b) := by
  cases edit with
  -- Insertions add to the arena; all other edits thin, or keep arena and sequence as they are.
  | push i => exact keepsValid_push b i
  | insert position i => exact keepsValid_insert b position i
  | insertBefore anchor i =>
      rw [BodyEdit.apply, insertBefore?]
      cases b.position? anchor with
      | none => exact KeepsValid.refl b
      | some position => exact keepsValid_insert b position i
  | insertAfter anchor i =>
      rw [BodyEdit.apply, insertAfter?]
      cases b.position? anchor with
      | none => exact KeepsValid.refl b
      | some position => exact keepsValid_insert b (position + 1) i
  | remove id => exact Thins.keepsValid ⟨List.erase_sublist, rfl⟩
  | removeWhere test => exact (thins_removeWhere b test).keepsValid
  | clear => exact Thins.keepsValid ⟨List.nil_sublist _, rfl⟩
  | modify id f => exact Thins.keepsValid ⟨List.Sublist.refl _, List.length_modify _ _ _⟩
  | setLocals | setHandlers | setHeader => exact Thins.keepsValid ⟨List.Sublist.refl _, rfl⟩
  | updateOffsets => exact (thins_of_erased_eq b.erased_updateOffsets).keepsValid
  | simplifyBranches => exact (thins_of_erased_eq b.erased_simplifyBranches).keepsValid
  | optimizeBranches => exact (thins_of_erased_eq b.erased_optimizeBranches).keepsValid
  | repair => exact keepsValid_repair b
  | repairAndLayOut => exact keepsValid_repairAndLayOut b
  | remap m => exact (thins_remap m b).keepsValid
  | removeNops => exact (thins_removeNops b).keepsValid
  | replace old replacement =>
      rw [BodyEdit.apply]
      cases h : b.replace? old replacement with
      | none => exact KeepsValid.refl b
      | some result => exact keepsValid_replace? h
  | foldLiterals => exact (thins_foldLiterals b).keepsValid

/-! ### Bodies that edits lead to -/

/-- **The bodies that edits lead to** from given ones and from the body without instructions. -/
inductive EditedFrom (found : MethodBody → Prop) : MethodBody → Prop
  | found {b : MethodBody} (hb : found b) : EditedFrom found b
  | empty : EditedFrom found empty
  | edit {b : MethodBody} (hb : EditedFrom found b) (edit : BodyEdit) :
      EditedFrom found (edit.apply b)

variable {found found' : MethodBody → Prop}

/-- Edits after edits are edits.  By induction on the later ones. -/
theorem EditedFrom.bind (h : EditedFrom found b) (hfound : ∀ c, found c → EditedFrom found' c) :
    EditedFrom found' b := by
  induction h with
  | found hb => exact hfound _ hb
  | empty => exact .empty
  | edit _ edit ih => exact ih.edit edit

/-- **A body that comes by edits from valid ones is valid,** if there are identities for all its
slots.  By induction on the edits; the body without instructions is valid. -/
theorem EditedFrom.arenaValid (h : EditedFrom found b)
    (hfound : ∀ c, found c → c.Addressable → c.ArenaValid) (hb : b.Addressable) :
    b.ArenaValid := by
  induction h with
  | found hfound' => exact hfound _ hfound' hb
  | empty => exact ⟨fun _ hid => absurd hid List.not_mem_nil, List.nodup_nil⟩
  | @edit b _ edit ih =>
      have hkeeps := keepsValid_apply b edit
      exact hkeeps.valid hb (ih (hkeeps.addressable hb))

end MethodBody

end CilRepair
