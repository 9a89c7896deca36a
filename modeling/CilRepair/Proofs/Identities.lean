import CilRepair.Proofs.Edits

/-!
# Identities through edits

An identity is given to one instruction and never again.  Along any sequence of edits the arena
grows, and what the sequence of a body holds of the slots there were at an earlier time is what it
held then, less what was removed, in the same order.  Everything said of identities follows from
this one relation between an earlier body and a later one.

* `BodyEdit.issued` — the identities that an edit hands out.
* `mem_issued`, `KeepsValid.not_revived`, `KeepsValid.filter_eq` — identities are new, do not come
  back and keep their order.
* `MethodBody.afterEdits`, `keepsValid_afterEdits` — the bodies along a sequence of edits.
* `edits_never_reuse_identities` — all of it, for any two times.

## Design notes

An identity is told to be new by its slot: it is not below the length of the arena that there was.
That is stronger than not being in the sequence, for a removed identity keeps its slot, and it is
the reason why nothing that was removed can come back.

The statement compares any two times, and includes each time with itself.  Since `KeepsValid` is
transitive, the relation between two times is the relation of one edit, and the theorem is read off
it without an induction of its own.
-/

namespace CilRepair

/-- **The identities that an edit hands out:** those of the instructions that it puts in. -/
def BodyEdit.issued (b : MethodBody) : BodyEdit → List InstrId
  | push _ | insert _ _ => [b.fresh]
  | insertBefore anchor _ | insertAfter anchor _ =>
    ((b.position? anchor).map fun _ => b.fresh).toList
  | replace old replacement => ((b.replace? old replacement).map Prod.snd).getD []
  | _ => []

namespace MethodBody

variable {b c : MethodBody} {id : InstrId}

/-! ### From an earlier body to a later one -/

/-- An identity that had a slot and was not live does not become live: what the later sequence has
of the old slots was live before. -/
theorem KeepsValid.not_revived (h : b.KeepsValid c) (hc : c.Addressable)
    (hslot : id.slot < b.arena.length) (hdead : id ∉ b.order) : id ∉ c.order := by
  intro hlive
  exact hdead ((h.kept hc).subset (List.mem_filter.mpr ⟨hlive, decide_eq_true hslot⟩))

/-- **Identities that stay live keep their order.**  The later sequence, cut down to old slots, is a
subsequence of the earlier one, and a subsequence without repetition is a filter. -/
theorem KeepsValid.filter_eq (h : b.KeepsValid c) (hc : c.Addressable) (hb : b.ArenaValid) :
    c.order.filter b.isLive = b.order.filter c.isLive := by
  -- The left side is a sublist of the right one, and without repetition both have the same members.
  have hvalid := h.valid hc hb
  have hold : c.order.filter b.isLive =
      (c.order.filter (·.slot < b.arena.length)).filter b.isLive := by
    rw [List.filter_filter]
    refine List.filter_congr fun id _ => ?_
    by_cases hlive : id ∈ b.order
    · rw [isLive_iff.mpr hlive, decide_eq_true (hb.slot_lt id hlive), Bool.and_self]
    · rw [Bool.eq_false_iff.mpr (mt isLive_iff.mp hlive), Bool.false_and]
  have hboth : (c.order.filter b.isLive).filter c.isLive = c.order.filter b.isLive := by
    refine List.filter_eq_self.mpr fun id hid => ?_
    exact isLive_iff.mpr (List.mem_filter.mp hid).1
  have hsublist : (c.order.filter b.isLive).Sublist b.order := by
    rw [hold]
    exact List.filter_sublist.trans (h.kept hc)
  have hkept := hsublist.filter c.isLive
  rw [hboth] at hkept
  have hperm : (c.order.filter b.isLive).Perm (b.order.filter c.isLive) := by
    rw [List.perm_ext_iff_of_nodup (hvalid.nodup.filter _) (hb.nodup.filter _)]
    intro id
    rw [List.mem_filter, List.mem_filter, isLive_iff, isLive_iff, and_comm]
  exact hkept.eq_of_length hperm.length_eq

/-! ### Identities that are handed out -/

/-- What is inserted is live, -/
theorem mem_order_insert (b : MethodBody) (position : Nat) (i : Instruction) :
    b.fresh ∈ (b.insert position i).order :=
  (List.mem_insertIdx (Nat.min_le_right _ _)).mpr (Or.inl rfl)

/-- and so is what was live, -/
theorem order_subset_insert (b : MethodBody) (position : Nat) (i : Instruction) :
    b.order ⊆ (b.insert position i).order := List.subset_insertIdx _ _ _

/-- however many instructions are inserted. -/
theorem order_subset_insertAll (b : MethodBody) (position : Nat) (is : List Instruction) :
    b.order ⊆ (b.insertAll position is).1.order := by
  induction is generalizing b position with
  | nil => exact List.Subset.refl _
  | cons i is ih => exact List.Subset.trans (order_subset_insert b position i) (ih _ _)

/-- Instructions that are put in one after the other get new slots and are live. -/
theorem mem_insertAll {position : Nat} {is : List Instruction}
    (haddressable : (b.insertAll position is).1.Addressable)
    (hid : id ∈ (b.insertAll position is).2) :
    b.arena.length ≤ id.slot ∧ id ∈ (b.insertAll position is).1.order := by
  induction is generalizing b position with
  | nil => exact absurd hid List.not_mem_nil
  | cons i is ih =>
      have hroom := (keepsValid_insertAll (b.insert position i) (position + 1) is).addressable
        haddressable
      rw [Addressable, length_arena_insert] at hroom
      rcases List.mem_cons.mp hid with rfl | hid
      · rw [slot_fresh hroom]
        exact ⟨le_rfl, order_subset_insertAll _ _ is (mem_order_insert b position i)⟩
      · obtain ⟨hslot, hlive⟩ := ih haddressable hid
        rw [length_arena_insert] at hslot
        exact ⟨(Nat.le_succ _).trans hslot, hlive⟩

theorem mem_issued_insert {position : Nat} {i : Instruction}
    (haddressable : (b.insert position i).Addressable) :
    b.arena.length ≤ b.fresh.slot ∧ b.fresh ∈ (b.insert position i).order := by
  rw [Addressable, length_arena_insert] at haddressable
  rw [slot_fresh haddressable]
  exact ⟨le_rfl, mem_order_insert b position i⟩

/-- What replaces an instruction gets new slots and is live.  The old instruction is removed after
they were put in, and its identity is none of theirs. -/
theorem mem_replace? (hb : b.ArenaValid) {old : InstrId} {replacement : List Instruction}
    {ids : List InstrId} (h : b.replace? old replacement = some (c, ids))
    (haddressable : c.Addressable) (hid : id ∈ ids) : b.arena.length ≤ id.slot ∧ id ∈ c.order := by
  cases replacement with
  | nil => exact absurd h (by simp [replace?])
  | cons i is =>
      cases hposition : b.position? old with
      | none => exact absurd h (by simp [replace?, hposition])
      | some position =>
          simp only [replace?, hposition, Option.some.injEq, Prod.mk.injEq] at h
          obtain ⟨rfl, rfl⟩ := h
          have hinserted : (b.insertAll position (i :: is)).1.Addressable := by
            rw [Addressable, ← length_arena_remap]
            exact haddressable
          obtain ⟨hslot, hlive⟩ := mem_insertAll hinserted hid
          have hold : old ∈ b.order :=
            List.mem_of_getElem? ((position?_eq_some_iff hb).mp hposition)
          refine ⟨hslot, (List.mem_erase_of_ne ?_).mpr (by rwa [order_remap])⟩
          rintro rfl
          exact absurd (hb.slot_lt _ hold) (Nat.not_lt.mpr hslot)

/-- **An identity that is handed out is new and live.**  By cases on the edit. -/
theorem mem_issued (hb : b.ArenaValid) {edit : BodyEdit} (haddressable : (edit.apply b).Addressable)
    (hid : id ∈ edit.issued b) : b.arena.length ≤ id.slot ∧ id ∈ (edit.apply b).order := by
  cases edit with
  | push i =>
      obtain rfl := List.mem_singleton.mp hid
      rw [BodyEdit.apply, push_eq_insert] at haddressable ⊢
      exact mem_issued_insert haddressable
  | insert position i =>
      obtain rfl := List.mem_singleton.mp hid
      exact mem_issued_insert haddressable
  | insertBefore anchor i =>
      obtain ⟨position, hposition, rfl⟩ := Option.map_eq_some_iff.mp (Option.mem_toList.mp hid)
      rw [BodyEdit.apply, insertBefore?, hposition] at haddressable ⊢
      exact mem_issued_insert haddressable
  | insertAfter anchor i =>
      obtain ⟨position, hposition, rfl⟩ := Option.map_eq_some_iff.mp (Option.mem_toList.mp hid)
      rw [BodyEdit.apply, insertAfter?, hposition] at haddressable ⊢
      exact mem_issued_insert haddressable
  | replace old replacement =>
      rw [BodyEdit.issued] at hid
      rw [BodyEdit.apply] at haddressable ⊢
      cases hreplace : b.replace? old replacement with
      | none =>
          rw [hreplace] at hid
          exact absurd hid List.not_mem_nil
      | some result =>
          rw [hreplace] at hid haddressable
          exact mem_replace? hb hreplace haddressable hid
  | _ => exact absurd hid List.not_mem_nil

/-! ### Sequences of edits -/

/-- **The body after the first of some edits.** -/
def afterEdits (b : MethodBody) (edits : List BodyEdit) (n : ℕ) : MethodBody :=
  (edits.take n).foldl BodyEdit.apply b

theorem afterEdits_succ {edits : List BodyEdit} {n : ℕ} {edit : BodyEdit}
    (h : edits[n]? = some edit) :
    b.afterEdits edits (n + 1) = edit.apply (b.afterEdits edits n) := by
  rw [afterEdits, List.take_add_one, h, Option.toList_some, List.foldl_concat, afterEdits]

/-- Any number of edits is related as one is. -/
theorem keepsValid_foldl (b : MethodBody) (edits : List BodyEdit) :
    b.KeepsValid (edits.foldl BodyEdit.apply b) := by
  induction edits generalizing b with
  | nil => exact KeepsValid.refl b
  | cons edit edits ih => exact (keepsValid_apply b edit).trans (ih _)

/-- **An earlier body and a later one** are related as by one edit. -/
theorem keepsValid_afterEdits (b : MethodBody) (edits : List BodyEdit) {k n : ℕ} (h : k ≤ n) :
    (b.afterEdits edits k).KeepsValid (b.afterEdits edits n) := by
  obtain ⟨j, rfl⟩ := Nat.exists_eq_add_of_le h
  rw [afterEdits, afterEdits, List.take_add, List.foldl_append]
  exact keepsValid_foldl _ _

/-- **Identities are never reused and never change their order.**  Let any edits be made on a body
that passes the check of its arena, as the empty body does, and let there be identities for all
slots in the end.  Then every body on the way passes the check.  Compare a body with an earlier one,
or with itself: an identity with a slot in the earlier one that was not live there is not live, so
what was removed does not come back; those that are live in both stand in the same order; and what
the next edit hands out is live after it and none of the identities that had a slot. -/
theorem edits_never_reuse_identities (b : MethodBody) (hb : b.arenaFault? = none)
    (edits : List BodyEdit) (hroom : (b.afterEdits edits edits.length).arena.length < UInt32.size)
    (n : ℕ) :
    (b.afterEdits edits n).arenaFault? = none ∧
      ∀ k ≤ n,
        (∀ id : InstrId, id.slot < (b.afterEdits edits k).arena.length →
          id ∉ (b.afterEdits edits k).order → id ∉ (b.afterEdits edits n).order) ∧
        (b.afterEdits edits n).order.filter (b.afterEdits edits k).isLive =
          (b.afterEdits edits k).order.filter (b.afterEdits edits n).isLive ∧
        ∀ edit, edits[n]? = some edit → ∀ id ∈ edit.issued (b.afterEdits edits n),
          id ∈ (b.afterEdits edits (n + 1)).order ∧
            ∀ other : InstrId, other.slot < (b.afterEdits edits k).arena.length → id ≠ other := by
  have hend : ∀ n, (b.afterEdits edits n).Addressable := by
    intro n
    have hlast : (b.afterEdits edits edits.length).Addressable := Nat.le_of_lt hroom
    rcases Nat.le_total n edits.length with hle | hle
    · exact (keepsValid_afterEdits b edits hle).addressable hlast
    · rwa [afterEdits, List.take_length, ← List.take_of_length_le hle] at hlast
  have hvalid : ∀ n, (b.afterEdits edits n).ArenaValid := fun n =>
    (keepsValid_afterEdits b edits n.zero_le).valid (hend n) (arenaFault?_eq_none_iff.mp hb)
  refine ⟨arenaFault?_eq_none_iff.mpr (hvalid n), fun k hk => ?_⟩
  have hkeeps := keepsValid_afterEdits b edits hk
  refine ⟨fun id => hkeeps.not_revived (hend n), hkeeps.filter_eq (hend n) (hvalid k), ?_⟩
  intro edit hedit id hid
  have happly : edit.apply (b.afterEdits edits n) = b.afterEdits edits (n + 1) :=
    (afterEdits_succ hedit).symm
  obtain ⟨hslot, hlive⟩ := mem_issued (hvalid n) (happly ▸ hend (n + 1)) hid
  refine ⟨happly ▸ hlive, ?_⟩
  rintro _ hother rfl
  exact absurd (hother.trans_le hkeeps.slots) (Nat.not_lt.mpr hslot)

/-- Edits that remove, put in, replace, repair and append. -/
def reworkingEdits : List BodyEdit :=
  [.remove ⟨3⟩, .insertBefore ⟨1⟩ ⟨.nop, .absent, 0⟩,
    .replace ⟨0⟩ [⟨.dup, .absent, 0⟩, ⟨.pop, .absent, 0⟩], .repairAndLayOut, .push .ret]

/-- What the first edit removes is not live after the fourth, and the fifth does not hand it out. -/
theorem damagedBody_edits_keep_identities :
    (damagedBody.arenaFault? = none ∧
      (damagedBody.afterEdits reworkingEdits reworkingEdits.length).arena.length < UInt32.size) ∧
    (damagedBody.afterEdits reworkingEdits 4).arenaFault? = none ∧
    (⟨3⟩ : InstrId) ∉ (damagedBody.afterEdits reworkingEdits 4).order ∧
    ∀ id ∈ (BodyEdit.push .ret).issued (damagedBody.afterEdits reworkingEdits 4),
      id ∈ (damagedBody.afterEdits reworkingEdits 5).order ∧ id ≠ ⟨3⟩ := by
  have hvalid : damagedBody.arenaFault? = none := by decide
  have hroom : (damagedBody.afterEdits reworkingEdits reworkingEdits.length).arena.length <
      UInt32.size := by decide +kernel
  obtain ⟨hstays, hkeeps⟩ := edits_never_reuse_identities damagedBody hvalid reworkingEdits hroom 4
  obtain ⟨hremoved, -, hissued⟩ := hkeeps 1 (by decide)
  refine ⟨⟨hvalid, hroom⟩, hstays, hremoved ⟨3⟩ (by decide) (by decide), fun id hid => ?_⟩
  obtain ⟨hlive, hnew⟩ := hissued (.push .ret) rfl id hid
  exact ⟨hlive, hnew ⟨3⟩ (by decide)⟩

end MethodBody

end CilRepair
