import CilRepair.Body.References
import CilRepair.Proofs.Positions

/-!
# Thinned bodies

Removing instructions takes their identities off the sequence, and everything behind them moves up.
A thinned sequence is a filtered one, and a place moves to its rank: the number of places before it
that are kept.  Ranks are defined at every place, also at one that is removed; such a place moves to
where the next kept one moves.

* `MethodBody.Thins` — a body that has lost part of its sequence; it stays valid.
* `MethodBody.rank` — where a place moves.
* `MethodBody.idAt?_rank` — a kept identity is found at the rank of its place.
* `MethodBody.exists_idAt?_of_thinned` — and every place of the thinned body is the rank of one.
* `MethodBody.lastPosition?_thinned` — a search in the thinned body is a search in the old one.

The thinned body is not spelled out, because a pass that removes instructions changes others at the
same time: `c` is any body whose sequence is the filtered one.

## Design notes

There are two notions here, and they are used apart.  `Thins` is all that validity needs, a
subsequence over as many slots, and any number of removals compose.  `rank` is for statements about
what stands where, and needs to know which identities were kept.

Ranks are total so that a jump can be followed to a place that was removed: it goes on at the next
kept place, which is the rank of the removed one.
-/

namespace CilRepair

namespace MethodBody

variable {b c : MethodBody} {keep : InstrId → Bool} {p q : Nat} {id : InstrId}

/-- **A body that has lost part of its sequence,** and no slot.  What the slots hold may differ. -/
structure Thins (b c : MethodBody) : Prop where
  order : c.order.Sublist b.order
  slots : c.arena.length = b.arena.length

theorem Thins.refl (b : MethodBody) : b.Thins b := ⟨List.Sublist.refl _, rfl⟩

theorem Thins.trans {d : MethodBody} (h : b.Thins c) (h' : c.Thins d) : b.Thins d :=
  ⟨h'.order.trans h.order, h'.slots.trans h.slots⟩

/-- A part of a sequence without repetition has none either. -/
theorem ArenaValid.thin (hb : b.ArenaValid) (h : b.Thins c) : c.ArenaValid where
  slot_lt id hid := by
    rw [h.slots]
    exact hb.slot_lt id (h.order.subset hid)
  nodup := hb.nodup.sublist h.order

/-- A removal by a test is one such loss. -/
theorem thins_removeWhere (b : MethodBody) (test : InstrId → Instruction → Bool) :
    b.Thins (b.removeWhere test) := ⟨List.filter_sublist, rfl⟩

/-! ### Ranks -/

/-- **Where a place moves** when only some identities are kept: the number of kept ones before. -/
def rank (b : MethodBody) (keep : InstrId → Bool) (p : Nat) : Nat := (b.order.take p).countP keep

@[simp] theorem rank_zero (b : MethodBody) (keep : InstrId → Bool) : b.rank keep 0 = 0 := rfl

/-- The next place is one further on if this one is kept. -/
theorem rank_succ (h : b.idAt? p = some id) :
    b.rank keep (p + 1) = b.rank keep p + (keep id).toNat := by
  have hid : b.order[p]? = some id := h
  rw [rank, rank, List.take_add_one, hid, List.countP_append]
  cases hkeep : keep id <;> simp [hkeep]

theorem rank_succ_of_keep (h : b.idAt? p = some id) (hkeep : keep id = true) :
    b.rank keep (p + 1) = b.rank keep p + 1 := by
  rw [rank_succ h, hkeep, Bool.toNat_true]

theorem rank_succ_of_not_keep (h : b.idAt? p = some id) (hkeep : keep id = false) :
    b.rank keep (p + 1) = b.rank keep p := by
  rw [rank_succ h, hkeep, Bool.toNat_false, Nat.add_zero]

/-- Behind the end there is nothing to count. -/
theorem rank_succ_of_none (h : b.idAt? p = none) : b.rank keep (p + 1) = b.rank keep p := by
  have hend : b.order.length ≤ p := idAt?_eq_none_iff.mp h
  rw [rank, rank, List.take_of_length_le hend, List.take_of_length_le (by omega)]

/-- Places keep their order. -/
theorem rank_mono (b : MethodBody) (keep : InstrId → Bool) : Monotone (b.rank keep) := by
  refine monotone_nat_of_le_succ fun p => ?_
  cases hid : b.idAt? p with
  | none => exact (rank_succ_of_none hid).ge
  | some id =>
      rw [rank_succ hid]
      exact Nat.le_add_right _ _

/-- What lies between two places does not separate them if none of it is kept. -/
theorem rank_eq_of_removed (hpq : p ≤ q)
    (h : ∀ r id, p ≤ r → r < q → b.idAt? r = some id → keep id = false) :
    b.rank keep q = b.rank keep p := by
  induction q, hpq using Nat.le_induction with
  | base => rfl
  | succ q hq ih =>
      have hbefore := ih fun r id hpr hrq => h r id hpr (by omega)
      cases hid : b.idAt? q with
      | some id => rw [rank_succ_of_not_keep hid (h q id hq (Nat.lt_succ_self q) hid), hbefore]
      | none => rw [rank_succ_of_none hid, hbefore]

/-! ### Places of the thinned body -/

section Thinned

variable (horder : c.order = b.order.filter keep)

include horder

/-- What is live in the thinned body is what was live and is kept. -/
theorem mem_order_thinned : id ∈ c.order ↔ id ∈ b.order ∧ keep id = true := by
  rw [horder, List.mem_filter]

/-- **A kept identity is found at the rank of its place.**  Before it stand those that are kept and
were before it. -/
theorem idAt?_rank (h : b.idAt? p = some id) (hkeep : keep id = true) :
    c.idAt? (b.rank keep p) = some id := by
  obtain ⟨hp, hid⟩ := List.getElem?_eq_some_iff.mp h
  -- The filtered sequence is what is kept before the place, the identity, and what follows.
  have hsplit : b.order = b.order.take p ++ id :: b.order.drop (p + 1) := by
    rw [← hid, List.cons_getElem_drop_succ, List.take_append_drop]
  rw [idAt?, horder, rank, List.countP_eq_length_filter]
  conv_lhs => rw [hsplit, List.filter_append, List.filter_cons_of_pos hkeep]
  rw [List.take_append_of_le_length (by simpa using hp.le), List.take_take, Nat.min_self,
    List.getElem?_append_right (Nat.le_refl _), Nat.sub_self, List.getElem?_cons_zero]

/-- The end of the body moves to the end of the thinned one. -/
theorem idAt?_rank_of_none (h : b.idAt? p = none) : c.idAt? (b.rank keep p) = none := by
  have hend : b.order.length ≤ p := idAt?_eq_none_iff.mp h
  rw [idAt?_eq_none_iff, length, horder, rank, List.take_of_length_le hend,
    List.countP_eq_length_filter]

/-- Every place of the thinned body is the rank of a kept one, so nothing new has come in. -/
theorem exists_idAt?_of_thinned (hb : b.ArenaValid) (h : c.idAt? q = some id) :
    ∃ p, b.idAt? p = some id ∧ keep id = true ∧ b.rank keep p = q := by
  obtain ⟨hmem, hkeep⟩ := (mem_order_thinned horder).mp (mem_order_iff.mpr ⟨q, h⟩)
  obtain ⟨p, hp⟩ := mem_order_iff.mp hmem
  refine ⟨p, hp, hkeep, ?_⟩
  have hnodup : c.order.Nodup := horder ▸ hb.nodup.filter keep
  obtain ⟨hlt, hget⟩ := List.getElem?_eq_some_iff.mp (idAt?_rank horder hp hkeep)
  obtain ⟨hlt', hget'⟩ := List.getElem?_eq_some_iff.mp h
  exact (hnodup.getElem_inj_iff).mp (hget.trans hget'.symm)

/-- **A search in the thinned body is a search in the old one,** for an identity that is not among
those removed. -/
theorem lastPosition?_thinned (hb : b.ArenaValid) (hc : c.ArenaValid)
    (hkeep : id ∈ b.order → keep id = true) :
    c.lastPosition? id = (b.lastPosition? id).map (b.rank keep) := by
  cases hp : b.lastPosition? id with
  | some p =>
      rw [lastPosition?_eq_some_iff hb] at hp
      rw [Option.map_some, lastPosition?_eq_some_iff hc]
      exact idAt?_rank horder hp (hkeep (mem_order_iff.mpr ⟨p, hp⟩))
  | none =>
      rw [Option.map_none, Option.eq_none_iff_forall_ne_some]
      intro q hq
      rw [lastPosition?_eq_some_iff hc] at hq
      obtain ⟨p, hp', -⟩ := exists_idAt?_of_thinned horder hb hq
      rw [← lastPosition?_eq_some_iff hb, hp] at hp'
      exact absurd hp' (by simp)

end Thinned

end MethodBody

end CilRepair
