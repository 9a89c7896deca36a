import CilRepair.Proofs.Soundness
import CilRepair.Proofs.Thinning

/-!
# Ranges in a thinned body

A thinned body keeps the order of its places, since ranks are monotone.  Whether a handler is still
in order is therefore a question about its two ranges alone: each has to keep an instruction.

* `MethodBody.rank_lt_iff` — a range that keeps an instruction does not collapse.
* `MethodBody.Spans`, `MethodBody.Spans.ordered_iff` — the four places of a handler, and its order
  read off them.
* `MethodBody.Spans.thinned` — the places of a handler move to their ranks, if what names them is
  moved along.
* `MethodBody.Spans.ordered_thinned_iff` — when a handler stays in order.
* `MethodBody.endsTerminal_thinned` — a thinned body ends as before if its last instruction is kept.

Boundaries may be renamed on the way.  A pass that removes only what nothing names renames nothing,
and one that moves references first says where to.

## Design notes

`Spans` names the four places of a handler.  They exist for every handler in order, and most lemmas
take them as given, so that no proof has to look for places twice.

A boundary need not be kept.  It is enough that what it was renamed to is found at its rank, which
is the condition `hmoved` of the main lemma, and each pass shows that in its own way.
-/

namespace CilRepair

namespace MethodBody

variable {b c : MethodBody} {keep : InstrId → Bool} {p q : Nat} {id : InstrId} {i j : Instruction}
  {h : ExceptionHandler} {tryStart tryEnd handlerStart handlerEnd : Nat}

/-! ### The places of a handler -/

instance (b : MethodBody) (h : ExceptionHandler) (p : Nat) : Decidable (b.EndsAt h p) :=
  match hend : h.handlerEnd with
  | some id => decidable_of_iff (b.idAt? p = some id) (endsAt_iff_of_some hend).symm
  | none => decidable_of_iff (p = b.length) (endsAt_iff_of_none hend).symm

/-- A handler ends in one place.  For an open handler it is the end of the body. -/
theorem EndsAt.unique (hb : b.ArenaValid) (hp : b.EndsAt h p) (hq : b.EndsAt h q) : p = q := by
  cases hend : h.handlerEnd with
  | some id =>
      rw [endsAt_iff_of_some hend] at hp hq
      exact hb.idAt?_inj hp hq
  | none =>
      rw [endsAt_iff_of_none hend] at hp hq
      exact hp.trans hq.symm

theorem EndsAt.le (hp : b.EndsAt h p) : p ≤ b.length := by
  cases hend : h.handlerEnd with
  | some id => exact (idAt?_lt ((endsAt_iff_of_some hend).mp hp)).le
  | none => exact ((endsAt_iff_of_none hend).mp hp).le

/-- **The places of the boundaries of a handler,** in the order in which they should be. -/
structure Spans (b : MethodBody) (h : ExceptionHandler)
    (tryStart tryEnd handlerStart handlerEnd : Nat) : Prop where
  tryStart : b.idAt? tryStart = some h.tryStart
  tryEnd : b.idAt? tryEnd = some h.tryEnd
  handlerStart : b.idAt? handlerStart = some h.handlerStart
  handlerEnd : b.EndsAt h handlerEnd

/-- **To be in order** is to have places in order.  The places that `Ordered` has are the given
ones. -/
theorem Spans.ordered_iff (hb : b.ArenaValid)
    (hspans : b.Spans h tryStart tryEnd handlerStart handlerEnd) :
    b.Ordered h ↔ tryStart < tryEnd ∧ tryEnd ≤ handlerStart ∧ handlerStart < handlerEnd := by
  constructor
  · rintro ⟨ts, te, hs, he, hts, hte, hhs, hhe, hplaces⟩
    obtain rfl : ts = tryStart := hb.idAt?_inj hts hspans.tryStart
    obtain rfl : te = tryEnd := hb.idAt?_inj hte hspans.tryEnd
    obtain rfl : hs = handlerStart := hb.idAt?_inj hhs hspans.handlerStart
    obtain rfl : he = handlerEnd := hhe.unique hb hspans.handlerEnd
    exact hplaces
  · intro hplaces
    exact ⟨tryStart, tryEnd, handlerStart, handlerEnd, hspans.tryStart, hspans.tryEnd,
      hspans.handlerStart, hspans.handlerEnd, hplaces⟩

/-- A handler in order has places. -/
theorem Ordered.exists_spans (hord : b.Ordered h) :
    ∃ tryStart tryEnd handlerStart handlerEnd,
      b.Spans h tryStart tryEnd handlerStart handlerEnd ∧
        tryStart < tryEnd ∧ tryEnd ≤ handlerStart ∧ handlerStart < handlerEnd := by
  obtain ⟨ts, te, hs, he, hts, hte, hhs, hhe, hplaces⟩ := hord
  exact ⟨ts, te, hs, he, ⟨hts, hte, hhs, hhe⟩, hplaces⟩

/-! ### Ranks -/

/-- **A range keeps its order exactly if it keeps an instruction.**  The rank counts what is kept
before a place, so it only grows past something kept. -/
theorem rank_lt_iff (hpq : p ≤ q) :
    b.rank keep p < b.rank keep q ↔
      ∃ r id, p ≤ r ∧ r < q ∧ b.idAt? r = some id ∧ keep id = true := by
  constructor
  · intro hlt
    by_contra hnone
    push Not at hnone
    have heq : b.rank keep q = b.rank keep p := by
      refine rank_eq_of_removed hpq fun r id hpr hrq hid => ?_
      simpa using hnone r id hpr hrq hid
    omega
  · rintro ⟨r, id, hpr, hrq, hid, hkeep⟩
    have hbefore : b.rank keep p ≤ b.rank keep r := b.rank_mono keep hpr
    have hstep : b.rank keep (r + 1) = b.rank keep r + 1 := rank_succ_of_keep hid hkeep
    have hbehind : b.rank keep (r + 1) ≤ b.rank keep q := b.rank_mono keep hrq
    omega

section Thinned

variable (horder : c.order = b.order.filter keep)

include horder

/-- The thinned body is as long as the rank of the end. -/
theorem length_thinned : c.length = b.rank keep b.length := by
  rw [length, horder, rank, length, List.take_length, List.countP_eq_length_filter]

/-- **A thinned body ends as before** if the last instruction is kept and is still terminal. -/
theorem endsTerminal_thinned (hid : b.idAt? (b.length - 1) = some id) (hkeep : keep id = true)
    (hj : c.get? id = some j) (hterminal : j.isTerminal = true) : c.endsTerminal = true := by
  have hlength : c.length = b.rank keep (b.length - 1) + 1 := by
    have hlt := idAt?_lt hid
    have hpos : b.length - 1 + 1 = b.length := by omega
    rw [length_thinned horder, ← rank_succ_of_keep hid hkeep, hpos]
  refine endsTerminal_iff.mpr ⟨j, ?_, hterminal⟩
  rw [hlength, Nat.add_sub_cancel, at?_of_idAt? (idAt?_rank horder hid hkeep), hj]

/-- **The places of a handler move to their ranks,** if its boundaries do.  An open handler ends at
the rank of the end, which is the new length. -/
theorem Spans.thinned {f : InstrId → InstrId}
    (hmoved : ∀ p, ∀ id ∈ h.boundaries, b.idAt? p = some id →
      c.idAt? (b.rank keep p) = some (f id))
    (hspans : b.Spans h tryStart tryEnd handlerStart handlerEnd) :
    c.Spans (h.mapBoundaries f) (b.rank keep tryStart) (b.rank keep tryEnd)
      (b.rank keep handlerStart) (b.rank keep handlerEnd) where
  tryStart := hmoved _ _ h.tryStart_mem_boundaries hspans.tryStart
  tryEnd := hmoved _ _ h.tryEnd_mem_boundaries hspans.tryEnd
  handlerStart := hmoved _ _ h.handlerStart_mem_boundaries hspans.handlerStart
  handlerEnd := by
    have hends := hspans.handlerEnd
    cases hend : h.handlerEnd with
    | some id =>
        have hmapped : (h.mapBoundaries f).handlerEnd = some (f id) := congrArg (Option.map f) hend
        rw [endsAt_iff_of_some hend] at hends
        rw [endsAt_iff_of_some hmapped]
        exact hmoved _ _ (ExceptionHandler.mem_boundaries_of_handlerEnd hend) hends
    | none =>
        have hmapped : (h.mapBoundaries f).handlerEnd = none := congrArg (Option.map f) hend
        rw [endsAt_iff_of_none hend] at hends
        rw [endsAt_iff_of_none hmapped, length_thinned horder, hends]

/-- **A handler stays in order exactly if each of its ranges keeps an instruction.** -/
theorem Spans.ordered_thinned_iff (hc : c.ArenaValid) {f : InstrId → InstrId}
    (hmoved : ∀ p, ∀ id ∈ h.boundaries, b.idAt? p = some id →
      c.idAt? (b.rank keep p) = some (f id))
    (hspans : b.Spans h tryStart tryEnd handlerStart handlerEnd) (htry : tryStart < tryEnd)
    (hbetween : tryEnd ≤ handlerStart) (hhandler : handlerStart < handlerEnd) :
    c.Ordered (h.mapBoundaries f) ↔
      (∃ r id, tryStart ≤ r ∧ r < tryEnd ∧ b.idAt? r = some id ∧ keep id = true) ∧
        ∃ r id, handlerStart ≤ r ∧ r < handlerEnd ∧ b.idAt? r = some id ∧ keep id = true := by
  have hmono : b.rank keep tryEnd ≤ b.rank keep handlerStart := b.rank_mono keep hbetween
  rw [(hspans.thinned horder hmoved).ordered_iff hc, ← rank_lt_iff htry.le,
    ← rank_lt_iff hhandler.le]
  constructor
  · exact fun hplaces => ⟨hplaces.1, hplaces.2.2⟩
  · exact fun hplaces => ⟨hplaces.1, hmono, hplaces.2⟩

end Thinned

end MethodBody

end CilRepair
