import CilRepair.Proofs.NopRemoval
import CilRepair.Proofs.RepairInvariants
import CilRepair.Proofs.ThinnedRanges

/-!
# References and handlers without padding

Removal of padding moves references before it removes anything, so that no reference to an
instruction is lost.  What can be lost is a handler: if one of its ranges is padding throughout,
both ends of the range move to the same instruction, and repair drops the handler.  A range that
holds anything else keeps it, and the handler stays in order.

* `MethodBody.SkipsTo`, `MethodBody.exists_apply_padding` — where a reference moves, by place.
* `MethodBody.solidCode`, `MethodBody.solidCode_removeNops` — what is no padding stays.
* `MethodBody.keeps_eq_not_isNop` — in an intact body all padding goes.
* `MethodBody.Hollow`, `MethodBody.isWellOrdered_removeNops` — the handlers that collapse.
* `MethodBody.repair_of_linked` — repair of a body with nothing amiss but the order of handlers.
* `MethodBody.removeNops_loses_only_hollow` — the result.

## Design notes

The argument has two halves, which meet in ranks.  References move forward to solid code, and places
move to their ranks; `idAt?_rank_of_referenced` says that for what is named the two movements agree.
After that a handler is four ranks, and `ThinnedRanges` tells when four ranks are in order.

`PaddedRange` and `Hollow` speak of the body before the removal only, so that one can tell which
handlers go without removing anything.  Both are decidable, which `cushionedBody` makes use of.

Repair of the thinned body is computed here and not only bounded: `repair_of_linked` is a general
fact about bodies in which the order of handlers is all that is amiss.
-/

namespace CilRepair

namespace Instruction

variable {i : Instruction} {f : InstrId → InstrId}

/-- An instruction that needs no repair needs none when what it names has moved, as long as
everything live that it names is live where it moved to. -/
theorem Settled.mapTargets {live live' : InstrId → Prop} (h : i.Settled live)
    (hmoved : ∀ id ∈ i.targets, live id → live' (f id)) : (i.mapTargets f).Settled live' where
  targets_live id hid := by
    rw [targets_mapTargets] at hid
    obtain ⟨t, ht, rfl⟩ := List.mem_map.mp hid
    exact hmoved t ht (h.targets_live t ht)
  aimed hop := by
    rcases h.aimed hop with ⟨id, hoperand⟩ | ⟨ids, hoperand⟩
    · exact Or.inl ⟨f id, by rw [operand_mapTargets, hoperand]; rfl⟩
    · exact Or.inr ⟨ids.map f, by rw [operand_mapTargets, hoperand]; rfl⟩

/-- A `nop` lets control through, so no terminal instruction is one. -/
theorem isNop_eq_false_of_isTerminal (h : i.isTerminal = true) : i.isNop = false := by
  by_contra hnop
  rw [Bool.not_eq_false] at hnop
  have hop : i.opcode = .nop := eq_of_beq hnop
  rw [isTerminal, hop] at h
  exact absurd h (by decide)

end Instruction

namespace MethodBody

variable {b : MethodBody} {p q : Nat} {id target : InstrId} {i : Instruction}
  {h : ExceptionHandler}

/-! ### Where references move -/

/-- Nothing but padding lies from a place on in front of another. -/
def PaddedRange (b : MethodBody) (p q : Nat) : Prop :=
  ∀ r < q, p ≤ r → ∀ i ∈ b.at? r, i.isNop = true

instance (b : MethodBody) (p q : Nat) : Decidable (b.PaddedRange p q) :=
  inferInstanceAs (Decidable (∀ r < q, p ≤ r → ∀ i ∈ b.at? r, i.isNop = true))

/-- **The place that a reference skips to:** the first one from its own on that holds no `nop`, or
its own if there is none. -/
def SkipsTo (b : MethodBody) (p q : Nat) : Prop :=
  p ≤ q ∧ b.PaddedRange p q ∧
    ((∃ i ∈ b.at? q, i.isNop = false) ∨ q = p ∧ b.PaddedRange p b.length)

/-- **A live reference moves to the instruction that it skips to.**  If there is nothing solid
behind it, it stays where it is. -/
theorem exists_apply_padding (hb : b.ArenaValid) (hid : b.idAt? p = some id) :
    ∃ q, b.idAt? q = some (b.padding.apply id) ∧ b.SkipsTo p q := by
  obtain ⟨i, hi⟩ := hb.exists_get? (mem_order_iff.mpr ⟨p, hid⟩)
  have hat : b.at? p = some i := (at?_of_idAt? hid).trans hi
  have hempty : b.PaddedRange p p := fun r hr hpr => absurd hpr (by omega)
  cases hnop : i.isNop with
  | false =>
      have hstay : b.padding.apply id = id := by
        rw [Remapping.apply, find?_padding_of_not_nop hb hid hi hnop, Option.getD_none]
      exact ⟨p, by rw [hstay, hid], Nat.le_refl p, hempty, Or.inl ⟨i, hat, hnop⟩⟩
  | true =>
      rcases find?_padding hb hid hi hnop with ⟨hnone, hall⟩ |
        ⟨q, next, j, hpq, hfind, hq, hj, hj', hbetween⟩
      · -- Nothing but padding follows, and the reference stays.
        have hstay : b.padding.apply id = id := by
          rw [Remapping.apply, hnone, Option.getD_none]
        refine ⟨p, by rw [hstay, hid], Nat.le_refl p, hempty, Or.inr ⟨rfl, ?_⟩⟩
        intro r _ hpr j hj
        rcases Nat.eq_or_lt_of_le hpr with rfl | hlt
        · obtain rfl : i = j := Option.some.inj (hat.symm.trans hj)
          exact hnop
        · exact hall r j hlt hj
      · -- The next solid instruction takes it over.
        have hmove : b.padding.apply id = next := by
          rw [Remapping.apply, hfind, Option.getD_some]
        refine ⟨q, by rw [hmove, hq], hpq.le, ?_, Or.inl ⟨j, (at?_of_idAt? hq).trans hj, hj'⟩⟩
        exact fun r hrq hpr k hk => hbetween r k hpr hrq hk

/-- **A reference is found at the rank of the place that it named.**  Nothing is kept between the
place and the one that it skips to, and so both have the same rank. -/
theorem idAt?_rank_of_referenced (hb : b.ArenaValid) (htarget : target ∈ b.references)
    (hp : b.idAt? p = some target) :
    b.removeNops.1.idAt? (b.rank b.keeps p) = some (b.padding.apply target) := by
  have hplace := lastPosition?_unpadded hb htarget
  rw [(lastPosition?_eq_some_iff hb).mpr hp, Option.map_some] at hplace
  exact (lastPosition?_eq_some_iff hb.removeNops).mp hplace

/-- **No live reference is lost,** wherever it skips to. -/
theorem apply_padding_mem (hb : b.ArenaValid) (htarget : target ∈ b.references)
    (hlive : target ∈ b.order) : b.padding.apply target ∈ b.removeNops.1.order := by
  obtain ⟨p, hp⟩ := mem_order_iff.mp hlive
  exact mem_order_iff.mpr ⟨_, idAt?_rank_of_referenced hb htarget hp⟩

/-! ### What stays -/

/-- **The code without padding:** the live identities that are none of a `nop`, with their
opcodes. -/
def solidCode (b : MethodBody) : List (InstrId × OpCode) :=
  (b.live.filter fun x => !x.2.isNop).map fun x => (x.1, x.2.opcode)

/-- The code without padding, identity by identity. -/
theorem solidCode_eq_filterMap (b : MethodBody) :
    b.solidCode = b.order.filterMap fun id =>
      ((b.get? id).filter fun i => !i.isNop).map fun i => (id, i.opcode) := by
  rw [solidCode, live, List.filter_filterMap, List.map_filterMap]
  refine List.filterMap_congr fun id _ => ?_
  cases b.get? id with
  | none => rfl
  | some i => cases hnop : i.isNop <;> simp [Option.filter, hnop]

/-- **What is no padding stays,** in its order and with its opcodes. -/
theorem solidCode_removeNops (hb : b.ArenaValid) : b.removeNops.1.solidCode = b.solidCode := by
  rw [solidCode_eq_filterMap, solidCode_eq_filterMap, order_removeNops, List.filterMap_filter]
  refine List.filterMap_congr fun id hid => ?_
  obtain ⟨i, hi⟩ := hb.exists_get? hid
  rw [get?_removeNops hb hid, hi, Option.map_some]
  cases hnop : i.isNop with
  | false => simp [Option.filter, keeps_of_not_nop hb hid hi hnop, hnop]
  | true => simp [Option.filter, hnop]

/-! ### Intact bodies -/

/-- **In a body that ends terminal all padding goes,** since something follows it.  A `nop` stays
only if a reference to it has nowhere to skip to, which is to say if there is nothing but padding up
to the end; and the end is terminal. -/
theorem keeps_eq_not_isNop (hb : b.ArenaValid) (hend : b.endsTerminal = true)
    (hid : b.idAt? p = some id) (hi : b.get? id = some i) : b.keeps id = !i.isNop := by
  cases hnop : i.isNop with
  | false => exact keeps_of_not_nop hb (mem_order_iff.mpr ⟨p, hid⟩) hi hnop
  | true =>
      obtain ⟨last, hlast, hterminal⟩ := endsTerminal_iff.mp hend
      have hsolid := Instruction.isNop_eq_false_of_isTerminal hterminal
      refine not_keeps_of_successor hb hid hi hnop (q := b.length - 1) ?_ hlast hsolid
      -- The padding is not the last instruction, which is terminal.
      have hp := idAt?_lt hid
      have hne : p ≠ b.length - 1 := by
        rintro rfl
        rw [at?_of_idAt? hid, hi, Option.some.injEq] at hlast
        rw [hlast, hsolid] at hnop
        exact absurd hnop (by decide)
      omega

/-- No padding is left in a body that ended terminal. -/
theorem not_nop_of_mem_removeNops (hb : b.ArenaValid) (hend : b.endsTerminal = true)
    (hi : i ∈ b.removeNops.1.instructions) : i.isNop = false := by
  obtain ⟨q, hq⟩ := mem_instructions_iff.mp hi
  obtain ⟨p, id, j, hid, hj, hkeep, -, rfl⟩ := exists_of_at?_removeNops hb hq
  rw [keeps_eq_not_isNop hb hend hid hj] at hkeep
  rw [Instruction.isNop_mapTargets]
  simpa using hkeep

/-- The count is that of the padding, also where several `nop`s are next to each other. -/
theorem removeNops_snd (hb : b.ArenaValid) (hend : b.endsTerminal = true) :
    b.removeNops.2 = b.instructions.countP Instruction.isNop := by
  have hcount : b.removeNops.2 = b.order.length - (b.order.filter b.keeps).length := rfl
  have hpadding : b.instructions.countP Instruction.isNop =
      b.order.countP fun id => !b.keeps id := by
    rw [instructions, List.countP_filterMap]
    refine List.countP_congr fun id hid => ?_
    obtain ⟨p, hp⟩ := mem_order_iff.mp hid
    obtain ⟨i, hi⟩ := hb.exists_get? hid
    simp [hi, keeps_eq_not_isNop hb hend hp hi]
  have hsum := List.length_eq_countP_add_countP b.keeps (l := b.order)
  rw [hcount, hpadding, ← List.countP_eq_length_filter]
  simp only [decide_not, Bool.decide_eq_true] at hsum
  omega

/-! ### Handlers that collapse -/

/-- **A handler that protects or runs nothing:** one of its ranges is padding throughout. -/
def Hollow (b : MethodBody) (h : ExceptionHandler) : Prop :=
  (∃ p < b.length, ∃ q < b.length,
    b.idAt? p = some h.tryStart ∧ b.idAt? q = some h.tryEnd ∧ b.PaddedRange p q) ∨
  ∃ p < b.length, ∃ q ≤ b.length,
    b.idAt? p = some h.handlerStart ∧ b.EndsAt h q ∧ b.PaddedRange p q

instance (b : MethodBody) (h : ExceptionHandler) : Decidable (b.Hollow h) :=
  inferInstanceAs (Decidable (_ ∨ _))

variable {tryStart tryEnd handlerStart handlerEnd : Nat}

/-- To be hollow is to have padding between two of the four places.  Places are unique, so the ones
that `Hollow` speaks of are those of the handler. -/
theorem Spans.hollow_iff (hb : b.ArenaValid)
    (hspans : b.Spans h tryStart tryEnd handlerStart handlerEnd) :
    b.Hollow h ↔ b.PaddedRange tryStart tryEnd ∨ b.PaddedRange handlerStart handlerEnd := by
  constructor
  · rintro (⟨p, -, q, -, hp, hq, hrange⟩ | ⟨p, -, q, -, hp, hq, hrange⟩)
    · obtain rfl : p = tryStart := hb.idAt?_inj hp hspans.tryStart
      obtain rfl : q = tryEnd := hb.idAt?_inj hq hspans.tryEnd
      exact Or.inl hrange
    · obtain rfl : p = handlerStart := hb.idAt?_inj hp hspans.handlerStart
      obtain rfl : q = handlerEnd := hq.unique hb hspans.handlerEnd
      exact Or.inr hrange
  · rintro (hrange | hrange)
    · exact Or.inl ⟨tryStart, idAt?_lt hspans.tryStart, tryEnd, idAt?_lt hspans.tryEnd,
        hspans.tryStart, hspans.tryEnd, hrange⟩
    · exact Or.inr ⟨handlerStart, idAt?_lt hspans.handlerStart, handlerEnd,
        hspans.handlerEnd.le, hspans.handlerStart, hspans.handlerEnd, hrange⟩

/-- A range keeps an instruction unless it is padding throughout.  This is where padding in front of
a handler is told from padding inside of it. -/
theorem exists_keeps_iff (hb : b.ArenaValid) (hend : b.endsTerminal = true) :
    (∃ r id, p ≤ r ∧ r < q ∧ b.idAt? r = some id ∧ b.keeps id = true) ↔ ¬ b.PaddedRange p q := by
  constructor
  · rintro ⟨r, id, hpr, hrq, hid, hkeep⟩ hrange
    obtain ⟨i, hi⟩ := hb.exists_get? (mem_order_iff.mpr ⟨r, hid⟩)
    have hnop := hrange r hrq hpr i ((at?_of_idAt? hid).trans hi)
    rw [keeps_eq_not_isNop hb hend hid hi, hnop] at hkeep
    exact absurd hkeep (by decide)
  · intro hrange
    unfold PaddedRange at hrange
    push Not at hrange
    obtain ⟨r, hrq, hpr, i, hat, hnop⟩ := hrange
    obtain ⟨id, hid, hi⟩ := at?_eq_some_iff.mp hat
    refine ⟨r, id, hpr, hrq, hid, ?_⟩
    rw [keeps_eq_not_isNop hb hend hid hi]
    simpa using hnop

/-- **Of the handlers in order those stay in order that are not hollow.**  The test is that of
repair, on the body without padding and the boundaries that moved. -/
theorem isWellOrdered_removeNops (hb : b.ArenaValid) (hend : b.endsTerminal = true)
    (hmem : h ∈ b.handlers) (hord : b.Ordered h) (hfilter : ∀ id ∈ h.filterStart, id ∈ b.order) :
    b.removeNops.1.isWellOrdered (h.mapBoundaries b.padding.apply) = true ↔ ¬ b.Hollow h := by
  have hnamed : ∀ id ∈ h.boundaries, id ∈ b.references := fun id hid =>
    mem_references_of_boundary hmem hid
  have hfilter' : ∀ id ∈ (h.mapBoundaries b.padding.apply).filterStart,
      id ∈ b.removeNops.1.order := by
    intro id hid
    obtain ⟨t, ht, rfl⟩ := Option.mem_map.mp hid
    exact apply_padding_mem hb (hnamed t (ExceptionHandler.mem_boundaries_of_filterStart ht))
      (hfilter t ht)
  obtain ⟨_, _, _, _, hspans, htry, hbetween, hhandler⟩ := hord.exists_spans
  rw [isWellOrdered_iff hb.removeNops, and_iff_left hfilter',
    hspans.ordered_thinned_iff b.order_removeNops hb.removeNops
      (fun p id hid hp => idAt?_rank_of_referenced hb (hnamed id hid) hp) htry hbetween hhandler,
    exists_keeps_iff hb hend, exists_keeps_iff hb hend, hspans.hollow_iff hb, not_or]

/-! ### Repair of what is left -/

/-- **Repair of a body with nothing amiss but the order of handlers** drops those out of order.
Each step of repair but one finds nothing to do, and the report counts what that one drops. -/
theorem repair_of_linked (hb : b.ArenaValid)
    (hsettled : ∀ p i, b.at? p = some i → i.Settled (· ∈ b.order))
    (hboundaries : ∀ h ∈ b.handlers, ∀ id ∈ h.boundaries, id ∈ b.order)
    (hend : b.endsTerminal = true) (hlocals : b.LocalsDeclared) :
    b.repair = ({ b with handlers := b.handlers.filter b.isWellOrdered },
      { droppedHandlers := b.handlers.length - (b.handlers.filter b.isWellOrdered).length }) := by
  have htargets : b.repairTargets = (b, {}) := repairTargets_of_settled hb fun p i hi =>
    (hsettled p i hi).mono fun id hid => isLive_iff.mpr hid
  have hhandlers := repairHandlers_of_live fun h hh id hid =>
    isLive_iff.mpr (hboundaries h hh id hid)
  -- The two last steps do not look at handlers.
  have hterminate : MethodBody.terminate { b with handlers := b.handlers.filter b.isWellOrdered } =
      ({ b with handlers := b.handlers.filter b.isWellOrdered }, {}) :=
    terminate_of_endsTerminal hend
  have hdeclare :
      MethodBody.declareLocals { b with handlers := b.handlers.filter b.isWellOrdered } =
        ({ b with handlers := b.handlers.filter b.isWellOrdered }, {}) :=
    declareLocals_of_declared (requiredLocals_le_iff.mpr hlocals)
  simp only [repair, htargets, hhandlers, hterminate, hdeclare]
  refine Prod.ext rfl ?_
  change RepairReport.add (RepairReport.add (RepairReport.add _ _) _) _ = _
  simp [RepairReport.add]

/-- Removal of padding moves the boundaries of handlers and drops none of them; that is left to
repair. -/
theorem handlers_removeNops (b : MethodBody) :
    b.removeNops.1.handlers = b.handlers.map (·.mapBoundaries b.padding.apply) := rfl

/-- Instructions that need no repair need none without the padding, -/
theorem settled_removeNops (hb : b.ArenaValid)
    (hsettled : ∀ p i, b.at? p = some i → i.Settled (· ∈ b.order))
    (hj : b.removeNops.1.at? q = some j) : j.Settled (· ∈ b.removeNops.1.order) := by
  obtain ⟨p, _, i, hp, hi, -, -, rfl⟩ := exists_of_at?_removeNops hb hj
  have hat : b.at? p = some i := (at?_of_idAt? hp).trans hi
  refine (hsettled p i hat).mapTargets fun id hid hlive => ?_
  exact apply_padding_mem hb
    (mem_references_of_instruction (mem_instructions_iff.mpr ⟨p, hat⟩) hid) hlive

/-- boundaries that are live stay live, -/
theorem boundaries_live_removeNops (hb : b.ArenaValid)
    (hlive : ∀ h ∈ b.handlers, ∀ id ∈ h.boundaries, id ∈ b.order) :
    ∀ h ∈ b.removeNops.1.handlers, ∀ id ∈ h.boundaries, id ∈ b.removeNops.1.order := by
  intro h' hh' id hid
  obtain ⟨h, hh, rfl⟩ := List.mem_map.mp hh'
  rw [ExceptionHandler.boundaries_mapBoundaries] at hid
  obtain ⟨t, ht, rfl⟩ := List.mem_map.mp hid
  exact apply_padding_mem hb (mem_references_of_boundary hh ht) (hlive h hh t ht)

/-- a terminal end is kept, being no `nop`, -/
theorem endsTerminal_removeNops (hb : b.ArenaValid) (hend : b.endsTerminal = true) :
    b.removeNops.1.endsTerminal = true := by
  obtain ⟨last, hlast, hterminal⟩ := endsTerminal_iff.mp hend
  obtain ⟨id, hid, hi⟩ := at?_eq_some_iff.mp hlast
  have hmem : id ∈ b.order := mem_order_iff.mpr ⟨_, hid⟩
  refine endsTerminal_thinned (j := last.mapTargets b.padding.apply) b.order_removeNops hid
    (keeps_of_not_nop hb hmem hi (Instruction.isNop_eq_false_of_isTerminal hterminal)) ?_ ?_
  · rw [get?_removeNops hb hmem, hi, Option.map_some]
  · rw [Instruction.isTerminal_mapTargets, hterminal]

/-- and no local comes into use. -/
theorem LocalsDeclared.removeNops (hb : b.ArenaValid) (h : b.LocalsDeclared) :
    b.removeNops.1.LocalsDeclared := by
  intro q j hj index hindex
  obtain ⟨p, _, i, hp, hi, -, -, rfl⟩ := exists_of_at?_removeNops hb hj
  exact h p i ((at?_of_idAt? hp).trans hi) index (by simpa using hindex)

/-- **Without its padding an intact body lacks nothing but the order of handlers.**  So repair does
nothing but drop the hollow ones. -/
theorem Intact.repair_removeNops (hb : b.ArenaValid) (hintact : b.Intact) :
    b.removeNops.1.repair =
      ({ b.removeNops.1 with
          handlers := (b.handlers.filter fun h => ¬ b.Hollow h).map
            (·.mapBoundaries b.padding.apply) },
        { droppedHandlers := b.handlers.countP fun h => b.Hollow h }) := by
  obtain ⟨hresolved, hend, hlocals⟩ := intact_iff.mp hintact
  have hkept : b.removeNops.1.handlers.filter b.removeNops.1.isWellOrdered =
      (b.handlers.filter fun h => ¬ b.Hollow h).map (·.mapBoundaries b.padding.apply) := by
    rw [handlers_removeNops, List.filter_map]
    refine congrArg _ (List.filter_congr fun h hh => ?_)
    obtain ⟨hord, hfilter⟩ := hresolved.ordered h hh
    rw [Function.comp_apply, Bool.eq_iff_iff, decide_eq_true_iff]
    exact isWellOrdered_removeNops hb hend hh hord hfilter
  have hdropped : b.handlers.length = (b.handlers.countP fun h => b.Hollow h) +
      (b.handlers.filter fun h => ¬ b.Hollow h).length := by
    rw [← List.countP_eq_length_filter]
    simpa using List.length_eq_countP_add_countP (fun h => decide (b.Hollow h)) (l := b.handlers)
  rw [repair_of_linked hb.removeNops (fun _ _ => settled_removeNops hb hresolved.settled)
    (boundaries_live_removeNops hb hintact.boundaries_live) (endsTerminal_removeNops hb hend)
    (hlocals.removeNops hb), hkept]
  simp only [handlers_removeNops, List.length_map, Prod.mk.injEq, true_and]
  congr 1
  omega

/-- **Removal of padding loses no reference and no handler that does anything.**  References move to
the next instruction that is no `nop`, so that a live one stays live, and what is no padding stays
as it was.  In a body that needs no repair all padding goes and is counted, and repair then finds
nothing but the handlers that had a range of padding, which it drops. -/
theorem removeNops_loses_only_hollow (b : MethodBody) (hb : b.ArenaValid) :
    (b.removeNops.1.handlers = b.handlers.map (·.mapBoundaries b.padding.apply) ∧
      (∀ id ∈ b.removeNops.1.order,
        b.removeNops.1.get? id = (b.get? id).map (·.mapTargets b.padding.apply)) ∧
      (∀ p id, b.idAt? p = some id →
        ∃ q, b.idAt? q = some (b.padding.apply id) ∧ b.SkipsTo p q) ∧
      ∀ id ∈ b.references, id ∈ b.order → b.padding.apply id ∈ b.removeNops.1.order) ∧
    b.removeNops.1.solidCode = b.solidCode ∧
    (b.repair.2.changed = false →
      (∀ i ∈ b.removeNops.1.instructions, i.isNop = false) ∧
      b.removeNops.2 = b.instructions.countP Instruction.isNop ∧
      b.removeNops.1.repair =
        ({ b.removeNops.1 with
            handlers := (b.handlers.filter fun h => ¬ b.Hollow h).map
              (·.mapBoundaries b.padding.apply) },
          { droppedHandlers := b.handlers.countP fun h => b.Hollow h })) := by
  refine ⟨⟨b.handlers_removeNops, fun id hid => ?_, fun p id hid => exists_apply_padding hb hid,
    fun id hid hlive => apply_padding_mem hb hid hlive⟩, solidCode_removeNops hb,
    fun hunchanged => ?_⟩
  · exact get?_removeNops hb ((mem_order_thinned b.order_removeNops).mp hid).1
  · have hintact : b.Intact :=
      (repair_report_iff hb).mp (RepairReport.changed_eq_false_iff.mp hunchanged)
    have hend := (intact_iff.mp hintact).2.1
    exact ⟨fun i hi => not_nop_of_mem_removeNops hb hend hi, removeNops_snd hb hend,
      hintact.repair_removeNops hb⟩

/-- A body with handlers in padding.  The second protects two `nop`s and nothing else; the others
begin or end in padding, and the last one is open at its end. -/
def cushionedBody : MethodBody where
  arena := [.nop, ⟨.ldcI4 .short, .immediate (.int8 3), 0⟩, .nop, .nop, .bare .pop, .nop,
    ⟨.branch .br .short, .target ⟨2⟩, 0⟩, .bare .ret]
  order := [⟨0⟩, ⟨1⟩, ⟨2⟩, ⟨3⟩, ⟨4⟩, ⟨5⟩, ⟨6⟩, ⟨7⟩]
  locals := []
  handlers := [.finalizing ⟨0⟩ ⟨2⟩ ⟨3⟩ (some ⟨5⟩), .finalizing ⟨2⟩ ⟨4⟩ ⟨4⟩ (some ⟨6⟩),
    .finalizing ⟨3⟩ ⟨5⟩ ⟨5⟩ none]
  maxStack := 8
  initLocals := true

/-- Its padding is gone, and so is the handler that protected nothing else.  The other two are there
with boundaries on the next instruction. -/
theorem cushionedBody_loses_hollow :
    cushionedBody.ArenaValid ∧ cushionedBody.repair.2.changed = false ∧
      cushionedBody.removeNops.1.order = [⟨1⟩, ⟨4⟩, ⟨6⟩, ⟨7⟩] ∧ cushionedBody.removeNops.2 = 4 ∧
      cushionedBody.removeNops.1.repair.2 = { droppedHandlers := 1 } ∧
      cushionedBody.removeNops.1.repair.1.handlers =
        [.finalizing ⟨1⟩ ⟨4⟩ ⟨4⟩ (some ⟨6⟩), .finalizing ⟨4⟩ ⟨6⟩ ⟨6⟩ none] := by
  have hb : cushionedBody.ArenaValid := by decide
  have hunchanged : cushionedBody.repair.2.changed = false := by decide
  obtain ⟨-, -, hintact⟩ := removeNops_loses_only_hollow cushionedBody hb
  obtain ⟨-, hcount, hrepair⟩ := hintact hunchanged
  refine ⟨hb, hunchanged, by decide, hcount.trans (by decide), ?_, ?_⟩
  · rw [hrepair]
    decide
  · rw [hrepair]
    decide

end MethodBody

end CilRepair
