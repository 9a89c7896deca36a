import CilRepair.Proofs.FoldSites
import CilRepair.Proofs.Remapping
import CilRepair.Proofs.RepairInvariants
import CilRepair.Proofs.ThinnedRanges

/-!
# Where folding ends

Folding is a chain of folds, and each link of it is a fold of the body that the links before have
left.  What holds of the whole is therefore read off one link: two instructions go that nothing
names, and one becomes a literal.

* `MethodBody.FoldsTo` — the chain, with the body that each fold finds.
* `MethodBody.foldSite?_eq_none_iff` — a search finds no site only if there is none.
* `MethodBody.TrapsAt`, `MethodBody.TrapsAt.foldSite` — an operation that would trap survives each
  fold, together with the literals that make it trap.
* `MethodBody.IsFoldSite.intact` — a fold breaks nothing that repair would have to mend.
* `MethodBody.foldLiterals_reaches_fixpoint` — the whole.
* `MethodBody.aimedLiteral_loses_reference` — a reference that goes with a folded instruction.

A literal or an operation may name instructions, since no operand is of the wrong kind for an
opcode.  Such a name goes with the instruction that has it, and only then may what it named be
folded away.

## Design notes

The chain is an inductive relation that carries the body found by each fold.  It has to, for what a
fold may remove depends on the references there are at that time, and a claim about them cannot be
made of the first body alone.  Every clause of the result is proved for one fold and then by
induction on the chain.

An operation that would trap is described by its place and its two literals.  Folds around it move
the place, which is why `TrapsAt.foldSite` gives a new one together with the same identity.
-/

namespace CilRepair

theorem ExceptionHandler.mapBoundaries_id (h : ExceptionHandler) :
    h.mapBoundaries (fun id => id) = h := by
  rcases h with ⟨flags, tryStart, tryEnd, handlerStart, handlerEnd, filterStart, catchType⟩
  cases handlerEnd <;> cases filterStart <;> rfl

/-- The identities of a triple. -/
def FoldSite.ids (site : FoldSite) : List InstrId := [site.first, site.second, site.third]

/-! ### Instructions of a triple -/

namespace Instruction

variable {i : Instruction} {x y value : Int32} {operation : BinaryOp}

theorem exists_ldcI4_of_literal? (h : i.literal? = some value) :
    ∃ form, i.opcode = .ldcI4 form := by
  cases hop : i.opcode with
  | ldcI4 form => exact ⟨form, rfl⟩
  | _ => simp [literal?, hop] at h

/-- No operation ends a body, -/
theorem isTerminal_of_binary (h : i.opcode = .binary operation) : i.isTerminal = false := by
  rw [isTerminal, h]
  cases operation <;> rfl

/-- and no literal does. -/
theorem isTerminal_of_literal? (h : i.literal? = some value) : i.isTerminal = false := by
  obtain ⟨form, hop⟩ := exists_ldcI4_of_literal? h
  rw [isTerminal, hop]
  rfl

/-- A literal uses no local, -/
theorem local?_of_literal? (h : i.literal? = some value) : i.local? = none := by
  obtain ⟨form, hop⟩ := exists_ldcI4_of_literal? h
  simp [local?, hop, OpCode.isLoadLocal, OpCode.isStoreLocal]

/-- and the new one names nothing. -/
theorem targets_shortestLiteral (value : Int32) : (shortestLiteral value).targets = [] := by
  rw [shortestLiteral]
  split
  · rfl
  · split <;> rfl

/-- A literal needs no repair. -/
theorem settled_shortestLiteral (value : Int32) (live : InstrId → Prop) :
    (shortestLiteral value).Settled live where
  targets_live id hid := by
    rw [targets_shortestLiteral] at hid
    exact absurd hid List.not_mem_nil
  aimed h := by
    obtain ⟨form, hop⟩ := exists_ldcI4_of_literal? (literal?_shortestLiteral value)
    rw [isBranch, isSwitch, hop] at h
    exact absurd h (by simp [OpCode.isBranch_iff])

end Instruction

namespace MethodBody

variable {b c : MethodBody} {site : FoldSite} {id holder : InstrId} {i : Instruction} {p q : Nat}
  {folds : List (MethodBody × FoldSite)}

/-! ### The search -/

/-- A search that fails has looked at every triple.  By induction along the sequence. -/
theorem foldSiteIn?_eq_none {references order : List InstrId}
    (h : b.foldSiteIn? references order = none) :
    ∀ (p : Nat) (first second third : InstrId), order[p]? = some first →
      order[p + 1]? = some second → order[p + 2]? = some third → second ∉ references →
      third ∉ references → b.tripleValue? first second third = none := by
  fun_induction foldSiteIn? b references order with
  | case1 => exact absurd h (by simp)
  | case2 _ _ _ rest value? hvalue ih =>
      intro p first second third hfirst hsecond hthird hsecond' hthird'
      cases p with
      | zero =>
          obtain rfl := Option.some.inj hfirst
          obtain rfl := Option.some.inj hsecond
          obtain rfl := Option.some.inj hthird
          simpa [value?, hsecond', hthird'] using hvalue
      | succ p => exact ih h p first second third hfirst hsecond hthird hsecond' hthird'
  | case3 order hshort =>
      -- A list with three neighbours has three entries.
      intro p _ _ _ _ _ hthird
      rcases order with _ | ⟨_, _ | ⟨_, _ | ⟨_, _⟩⟩⟩
      · simp at hthird
      · simp at hthird
      · simp at hthird
      · exact absurd rfl (hshort _ _ _ _)

/-- **A search finds no site only if there is none.**  What it asks of a triple is what `IsFoldSite`
says of it. -/
theorem foldSite?_eq_none_iff : b.foldSite? = none ↔ ∀ site p, ¬ b.IsFoldSite site p := by
  constructor
  · intro h site p hsite
    have hnone := foldSiteIn?_eq_none h p _ _ _ hsite.first hsite.second hsite.third
      hsite.second_notMem hsite.third_notMem
    rw [hsite.value] at hnone
    exact absurd hnone (by simp)
  · intro h
    rw [Option.eq_none_iff_forall_ne_some]
    intro site hsite
    obtain ⟨p, hp⟩ := exists_isFoldSite hsite
    exact h site p hp

/-! ### One fold -/

/-- A fold takes two instructions off the sequence.  They are at different places, and neither is
the first of the triple. -/
theorem IsFoldSite.length_foldSite (hsite : b.IsFoldSite site p) (hb : b.ArenaValid) :
    b.order.length = (b.foldSite site).order.length + 2 := by
  have hsecond : site.second ∈ b.order := mem_order_iff.mpr ⟨p + 1, hsite.second⟩
  have hne : site.third ≠ site.second := by
    intro heq
    have := hb.idAt?_inj (heq ▸ hsite.third) hsite.second
    omega
  have hthird : site.third ∈ b.order.erase site.second :=
    (List.mem_erase_of_ne hne).mpr (mem_order_iff.mpr ⟨p + 2, hsite.third⟩)
  have horder : (b.foldSite site).order = (b.order.erase site.second).erase site.third := rfl
  have herase := List.length_erase_of_mem hsecond
  have herase' := List.length_erase_of_mem hthird
  have hpos := List.length_pos_of_mem hsecond
  have hpos' := List.length_pos_of_mem hthird
  rw [horder]
  omega

/-- A fold makes no reference. -/
theorem references_foldSite (hb : b.ArenaValid) (h : id ∈ (b.foldSite site).references) :
    id ∈ b.references := by
  rcases List.mem_append.mp h with h | h
  · obtain ⟨i, hi, hid⟩ := List.mem_flatMap.mp h
    rcases mem_instructions_foldSite hb hi with hold | rfl
    · exact mem_references_of_instruction hold hid
    · rw [Instruction.targets_shortestLiteral] at hid
      exact absurd hid List.not_mem_nil
  · exact List.mem_append_right _ h

/-- **What a fold leaves of the references:** all but those of the triple.  Literals and operations
have no targets as a rule, but nothing forbids that they have. -/
theorem mem_references_or_held (hb : b.ArenaValid) (site : FoldSite) (hid : id ∈ b.references) :
    id ∈ (b.foldSite site).references ∨
      ∃ holder ∈ site.ids, ∃ i, b.get? holder = some i ∧ id ∈ i.targets := by
  rcases List.mem_append.mp hid with hid | hid
  · obtain ⟨i, hi, htarget⟩ := List.mem_flatMap.mp hid
    obtain ⟨holder, hmem, hget⟩ := List.mem_filterMap.mp hi
    by_cases hholder : holder ∈ site.ids
    · exact Or.inr ⟨holder, hholder, i, hget, htarget⟩
    · obtain ⟨hfirst, hsecond, hthird⟩ :
          holder ≠ site.first ∧ holder ≠ site.second ∧ holder ≠ site.third := by
        simpa [FoldSite.ids] using hholder
      have hkept : holder ∈ (b.foldSite site).order :=
        (mem_order_thinned (order_foldSite hb site)).mpr
          ⟨hmem, FoldSite.keeps_eq_true_iff.mpr ⟨hsecond, hthird⟩⟩
      exact Or.inl
        (mem_references_of_target hkept ((get?_foldSite_of_ne hfirst).trans hget) htarget)
  · exact Or.inl (List.mem_append_right _ hid)

/-- What is named stays. -/
theorem IsFoldSite.mem_order_of_referenced (hsite : b.IsFoldSite site p) (hb : b.ArenaValid)
    (hid : id ∈ b.references) (hlive : id ∈ b.order) : id ∈ (b.foldSite site).order :=
  (mem_order_thinned (order_foldSite hb site)).mpr ⟨hlive, hsite.keeps_of_mem_references hid⟩

/-- The instruction at a place of the folded body is an old one or the literal. -/
theorem exists_of_at?_foldSite (hb : b.ArenaValid) (hi : (b.foldSite site).at? q = some i) :
    (∃ p, b.at? p = some i) ∨ i = .shortestLiteral site.value :=
  (mem_instructions_foldSite hb (mem_instructions_iff.mpr ⟨q, hi⟩)).imp_left
    mem_instructions_iff.mp

/-- **What a fold leaves of an instruction outside of the triple:** everything, one place after the
other.  The rank counts on by one there, since the next place is not removed. -/
theorem IsFoldSite.at?_rank (hsite : b.IsFoldSite site p) (hb : b.ArenaValid)
    (hid : b.idAt? q = some id) (hfirst : q ≠ p) (hsecond : q ≠ p + 1) (hthird : q ≠ p + 2) :
    (b.foldSite site).idAt? (b.rank site.keeps q) = some id ∧
      (b.foldSite site).get? id = b.get? id ∧
      b.rank site.keeps (q + 1) = b.rank site.keeps q + 1 := by
  have hkeep : site.keeps id = true := (hsite.keeps_iff hb hid).mpr ⟨hsecond, hthird⟩
  refine ⟨idAt?_rank (order_foldSite hb site) hid hkeep, get?_foldSite_of_ne ?_,
    rank_succ_of_keep hid hkeep⟩
  rintro rfl
  exact hfirst (hb.idAt?_inj hid hsite.first)

/-- Instructions that need no repair need none after a fold.  What they name is named, and so it
stays. -/
theorem IsFoldSite.settled (hsite : b.IsFoldSite site p) (hb : b.ArenaValid)
    (hsettled : ∀ q i, b.at? q = some i → i.Settled (· ∈ b.order))
    (hi : (b.foldSite site).at? q = some i) : i.Settled (· ∈ (b.foldSite site).order) := by
  rcases exists_of_at?_foldSite hb hi with ⟨r, hr⟩ | rfl
  · refine ⟨fun id hid => ?_, (hsettled r i hr).aimed⟩
    exact hsite.mem_order_of_referenced hb
      (mem_references_of_instruction (mem_instructions_iff.mpr ⟨r, hr⟩) hid)
      ((hsettled r i hr).targets_live id hid)
  · exact Instruction.settled_shortestLiteral _ _

/-- **Handlers stay in order,** since their boundaries are named, so that no range loses its
start. -/
theorem IsFoldSite.ordered (hsite : b.IsFoldSite site p) (hb : b.ArenaValid) {h : ExceptionHandler}
    (hh : h ∈ b.handlers) (hord : b.Ordered h) : (b.foldSite site).Ordered h := by
  have horder := order_foldSite hb site
  have hkeep : ∀ id ∈ h.boundaries, site.keeps id = true := fun id hid =>
    hsite.keeps_of_mem_references (mem_references_of_boundary hh hid)
  have hmoved : ∀ r, ∀ id ∈ h.boundaries, b.idAt? r = some id →
      (b.foldSite site).idAt? (b.rank site.keeps r) = some id := fun r id hid hr =>
    idAt?_rank horder hr (hkeep id hid)
  obtain ⟨_, _, _, _, hspans, htry, hbetween, hhandler⟩ := hord.exists_spans
  have hiff := hspans.ordered_thinned_iff horder (hb.foldSite site) hmoved htry hbetween hhandler
  rw [h.mapBoundaries_id] at hiff
  refine hiff.mpr ⟨⟨_, _, Nat.le_refl _, htry, hspans.tryStart, ?_⟩,
    ⟨_, _, Nat.le_refl _, hhandler, hspans.handlerStart, ?_⟩⟩
  · exact hkeep _ h.tryStart_mem_boundaries
  · exact hkeep _ h.handlerStart_mem_boundaries

/-- **The end stays terminal,** since nothing terminal is part of a triple.  The last place is
therefore kept, and its instruction is as it was. -/
theorem IsFoldSite.endsTerminal (hsite : b.IsFoldSite site p) (hb : b.ArenaValid)
    (hend : b.endsTerminal = true) : (b.foldSite site).endsTerminal = true := by
  obtain ⟨i, j, k, x, y, hi, hx, hj, hy, hk, hvalue⟩ := tripleValue?_eq_some_iff.mp hsite.value
  obtain ⟨operation, hoperation⟩ := OpCode.exists_binary_of_fold? hvalue
  obtain ⟨last, hlast, hterminal⟩ := endsTerminal_iff.mp hend
  obtain ⟨id, hid, hget⟩ := at?_eq_some_iff.mp hlast
  have hne : ∀ {other l}, b.get? other = some l → l.isTerminal = false → id ≠ other := by
    rintro other l hl hfalls rfl
    rw [hget, Option.some.injEq] at hl
    rw [hl, hfalls] at hterminal
    exact absurd hterminal (by decide)
  have hfirst := hne hi (Instruction.isTerminal_of_literal? hx)
  have hsecond := hne hj (Instruction.isTerminal_of_literal? hy)
  have hthird := hne hk (Instruction.isTerminal_of_binary hoperation)
  exact endsTerminal_thinned (order_foldSite hb site) hid
    (FoldSite.keeps_eq_true_iff.mpr ⟨hsecond, hthird⟩) ((get?_foldSite_of_ne hfirst).trans hget)
    hterminal

/-- **A fold breaks nothing.**  Operands, handlers, the end and the locals are looked at one by
one. -/
theorem IsFoldSite.intact (hsite : b.IsFoldSite site p) (hb : b.ArenaValid) (h : b.Intact) :
    (b.foldSite site).Intact := by
  obtain ⟨⟨hsettled, hordered⟩, hend, hlocals⟩ := intact_iff.mp h
  refine intact_iff.mpr ⟨⟨fun q i hi => hsite.settled hb hsettled hi, fun h hh => ?_⟩,
    hsite.endsTerminal hb hend, fun q i hi index hindex => ?_⟩
  · obtain ⟨hord, hfilter⟩ := hordered h hh
    refine ⟨hsite.ordered hb hh hord, fun id hid => ?_⟩
    exact hsite.mem_order_of_referenced hb
      (mem_references_of_boundary hh (ExceptionHandler.mem_boundaries_of_filterStart hid))
      (hfilter id hid)
  · rcases exists_of_at?_foldSite hb hi with ⟨r, hr⟩ | rfl
    · exact hlocals r i hr index hindex
    · rw [Instruction.local?_of_literal? (Instruction.literal?_shortestLiteral _)] at hindex
      exact absurd hindex (by simp)

/-! ### Operations that trap -/

/-- **The third of three neighbours would trap:** it divides the first literal by the second, which
is zero, or minus one when the first is the least number. -/
def TrapsAt (b : MethodBody) (p : Nat) : Prop :=
  ∃ i j k x y, b.at? p = some i ∧ i.literal? = some x ∧ b.at? (p + 1) = some j ∧
    j.literal? = some y ∧ b.at? (p + 2) = some k ∧
    (k.opcode = .binary .div ∨ k.opcode = .binary .rem) ∧
    (y = 0 ∨ x = Int32.minValue ∧ y = -1)

/-- What traps is not folded. -/
theorem fold?_of_traps {op : OpCode} {x y : Int32} (hop : op = .binary .div ∨ op = .binary .rem)
    (htraps : y = 0 ∨ x = Int32.minValue ∧ y = -1) : op.fold? x y = none := by
  have htraps : (y == 0 || (x == Int32.minValue && y == -1)) = true := by simpa using htraps
  rcases hop with rfl | rfl <;> simp [OpCode.fold?, BinaryOp.fold?, htraps]

/-- **No triple that is folded overlaps with one that traps.**  An instruction is not a literal and
an operation at once, and the triple that traps has no value. -/
theorem TrapsAt.apart (htraps : b.TrapsAt q) (hsite : b.IsFoldSite site p) :
    p ≠ q ∧ p ≠ q + 1 ∧ p ≠ q + 2 ∧ p + 1 ≠ q ∧ p + 2 ≠ q := by
  obtain ⟨i, j, k, x, y, hi, hx, hj, hy, hk, hop, hpair⟩ := htraps
  obtain ⟨i', j', k', x', y', hi', hx', hj', hy', hk', hvalue⟩ :=
    tripleValue?_eq_some_iff.mp hsite.value
  rw [← at?_of_idAt? hsite.first] at hi'
  rw [← at?_of_idAt? hsite.second] at hj'
  rw [← at?_of_idAt? hsite.third] at hk'
  obtain ⟨operation, hoperation⟩ := OpCode.exists_binary_of_fold? hvalue
  have hkx : k.literal? = none := by
    rcases hop with hop | hop <;> exact Instruction.literal?_of_binary hop
  have hkx' : k'.literal? = none := Instruction.literal?_of_binary hoperation
  -- Triples that overlap otherwise would share a literal that is an operation.
  have hclash : ∀ {r l l' z}, b.at? r = some l → b.at? r = some l' → l.literal? = some z →
      l'.literal? = none → False := by
    intro r l l' z hl hl' hz hnone
    obtain rfl : l = l' := Option.some.inj (hl.symm.trans hl')
    rw [hz] at hnone
    exact absurd hnone (by simp)
  refine ⟨?_, ?_, ?_, ?_, ?_⟩
  · rintro rfl
    obtain rfl : i = i' := Option.some.inj (hi.symm.trans hi')
    obtain rfl : j = j' := Option.some.inj (hj.symm.trans hj')
    obtain rfl : k = k' := Option.some.inj (hk.symm.trans hk')
    obtain rfl : x = x' := Option.some.inj (hx.symm.trans hx')
    obtain rfl : y = y' := Option.some.inj (hy.symm.trans hy')
    rw [fold?_of_traps hop hpair] at hvalue
    exact absurd hvalue (by simp)
  · rintro rfl
    exact hclash hj' hk hy' hkx
  · rintro rfl
    exact hclash hi' hk hx' hkx
  · rintro rfl
    exact hclash hj hk' hy hkx'
  · rintro rfl
    exact hclash hi hk' hx hkx'

/-- **An operation that traps survives a fold,** with its literals in front of it.  Two triples that
overlap are the same, or else an operation of one is a literal of the other; and of the same triple
the operation would have a value. -/
theorem TrapsAt.foldSite (htraps : b.TrapsAt q) (hid : b.idAt? (q + 2) = some id)
    (hsite : b.IsFoldSite site p) (hb : b.ArenaValid) :
    ∃ r, (b.foldSite site).TrapsAt r ∧ (b.foldSite site).idAt? (r + 2) = some id := by
  obtain ⟨h₀, h₁, h₂, h₃, h₄⟩ := htraps.apart hsite
  obtain ⟨i, j, k, x, y, hi, hx, hj, hy, hk, hop, hpair⟩ := htraps
  obtain ⟨first, hfirst, hgetFirst⟩ := at?_eq_some_iff.mp hi
  obtain ⟨second, hsecond, hgetSecond⟩ := at?_eq_some_iff.mp hj
  obtain ⟨hfirst', hgetFirst', hrank⟩ :=
    hsite.at?_rank hb hfirst (by omega) (by omega) (by omega)
  obtain ⟨hsecond', hgetSecond', hrank'⟩ :=
    hsite.at?_rank hb hsecond (by omega) (by omega) (by omega)
  obtain ⟨hthird', hgetThird', -⟩ := hsite.at?_rank hb hid (by omega) (by omega) (by omega)
  -- The three are neighbours as before.
  rw [hrank] at hsecond' hrank'
  rw [show q + 2 = q + 1 + 1 by rfl, hrank'] at hthird'
  refine ⟨b.rank site.keeps q, ⟨i, j, k, x, y, ?_, hx, ?_, hy, ?_, hop, hpair⟩, hthird'⟩
  · rw [at?_of_idAt? hfirst', hgetFirst', hgetFirst]
  · rw [at?_of_idAt? hsecond', hgetSecond', hgetSecond]
  · rw [at?_of_idAt? hthird', hgetThird', ← at?_of_idAt? hid, hk]

/-! ### The chain -/

/-- **A chain of folds,** each with the body in which it finds its triple. -/
inductive FoldsTo : MethodBody → List (MethodBody × FoldSite) → MethodBody → Prop
  | done (b : MethodBody) : FoldsTo b [] b
  | fold {b c : MethodBody} {site : FoldSite} {p : Nat} {folds : List (MethodBody × FoldSite)}
      (hsite : b.IsFoldSite site p) (hrest : FoldsTo (b.foldSite site) folds c) :
      FoldsTo b ((b, site) :: folds) c

/-- **Folding is such a chain,** and it counts the folds.  By the induction of its definition. -/
theorem exists_foldsTo_foldLiterals (b : MethodBody) :
    ∃ folds, b.FoldsTo folds b.foldLiterals.1 ∧ b.foldLiterals.2 = folds.length := by
  induction b using foldLiterals.induct with
  | case1 b hnone =>
      rw [foldLiterals_of_none hnone]
      exact ⟨[], .done b, rfl⟩
  | case2 b site hsome folded count hfolded ih =>
      obtain ⟨folds, hfolds, hcount⟩ := ih
      obtain ⟨p, hsite⟩ := exists_isFoldSite hsome
      rw [foldLiterals_of_some hsome]
      exact ⟨(b, site) :: folds, .fold hsite hfolds, by rw [hcount, List.length_cons]⟩

/-- The chain ends where no triple is left. -/
theorem foldSite?_foldLiterals (b : MethodBody) : b.foldLiterals.1.foldSite? = none := by
  induction b using foldLiterals.induct with
  | case1 b hnone =>
      rw [foldLiterals_of_none hnone]
      exact hnone
  | case2 b site hsome folded count hfolded ih =>
      rw [foldLiterals_of_some hsome]
      exact ih

namespace FoldsTo

theorem handlers (h : b.FoldsTo folds c) : c.handlers = b.handlers := by
  induction h with
  | done => rfl
  | fold hsite hrest ih => exact ih

/-- A slot that is never the first of a triple is as it was. -/
theorem get? (h : b.FoldsTo folds c) (hid : ∀ fold ∈ folds, id ≠ fold.2.first) :
    c.get? id = b.get? id := by
  induction h with
  | done => rfl
  | fold hsite hrest ih =>
      obtain ⟨hne, hothers⟩ := List.forall_mem_cons.mp hid
      exact (ih hothers).trans (get?_foldSite_of_ne hne)

/-- **What is left is what every fold keeps.**  In its order. -/
theorem order (h : b.FoldsTo folds c) (hb : b.ArenaValid) :
    c.order = b.order.filter fun id => folds.all fun fold => fold.2.keeps id := by
  induction h with
  | done b => simp
  | fold hsite hrest ih =>
      rw [ih (hb.foldSite _), order_foldSite hb, List.filter_filter]
      exact List.filter_congr fun id _ => Bool.and_comm _ _

/-- Each fold takes two. -/
theorem length (h : b.FoldsTo folds c) (hb : b.ArenaValid) :
    b.order.length = c.order.length + 2 * folds.length := by
  induction h with
  | done => simp
  | fold hsite hrest ih =>
      have hone := hsite.length_foldSite hb
      have hothers := ih (hb.foldSite _)
      rw [List.length_cons]
      omega

/-- **No reference is made, and none dies.** -/
theorem references (h : b.FoldsTo folds c) (hb : b.ArenaValid) (hid : id ∈ c.references) :
    id ∈ b.references ∧ (id ∈ b.order → id ∈ c.order) := by
  induction h with
  | done => exact ⟨hid, fun hlive => hlive⟩
  | fold hsite hrest ih =>
      obtain ⟨hnamed, hkept⟩ := ih (hb.foldSite _) hid
      have hnamed := references_foldSite hb hnamed
      exact ⟨hnamed, fun hlive => hkept (hsite.mem_order_of_referenced hb hnamed hlive)⟩

/-- **A reference goes only with the instruction that makes it,** one of a folded triple.  At each
fold what is named is kept, so it must have lost its name in an earlier one. -/
theorem mem_order_or (h : b.FoldsTo folds c) (hb : b.ArenaValid) (hid : id ∈ b.references)
    (hlive : id ∈ b.order) :
    id ∈ c.order ∨ ∃ fold ∈ folds, ∃ holder ∈ fold.2.ids, ∃ i,
      fold.1.get? holder = some i ∧ id ∈ i.targets := by
  induction h with
  | done => exact Or.inl hlive
  | @fold b c site p folds hsite hrest ih =>
      have hlive' := hsite.mem_order_of_referenced hb hid hlive
      rcases mem_references_or_held hb site hid with hid' | hheld
      · refine (ih (hb.foldSite _) hid' hlive').imp_right ?_
        rintro ⟨fold, hfold, hheld⟩
        exact ⟨fold, List.mem_cons_of_mem _ hfold, hheld⟩
      · exact Or.inr ⟨(b, site), List.mem_cons_self, hheld⟩

/-- An operation that traps is never removed.  By induction on the chain, with its place
changing. -/
theorem trapsAt (h : b.FoldsTo folds c) (hb : b.ArenaValid) (htraps : b.TrapsAt p)
    (hid : b.idAt? (p + 2) = some id) : id ∈ c.order := by
  induction h generalizing p with
  | done => exact mem_order_iff.mpr ⟨p + 2, hid⟩
  | fold hsite hrest ih =>
      obtain ⟨r, htraps', hid'⟩ := htraps.foldSite hid hsite hb
      exact ih (hb.foldSite _) htraps' hid'

/-- The same for the bodies on the way: what has come to trap stays. -/
theorem trapsAt_of_mem (h : b.FoldsTo folds c) (hb : b.ArenaValid) {fold : MethodBody × FoldSite}
    (hfold : fold ∈ folds) (htraps : fold.1.TrapsAt p) (hid : fold.1.idAt? (p + 2) = some id) :
    id ∈ c.order := by
  induction h with
  | done => exact absurd hfold List.not_mem_nil
  | fold hsite hrest ih =>
      rcases List.mem_cons.mp hfold with rfl | hfold
      · exact (FoldsTo.fold hsite hrest).trapsAt hb htraps hid
      · exact ih (hb.foldSite _) hfold

/-- **Folding breaks nothing.** -/
theorem intact (h : b.FoldsTo folds c) (hb : b.ArenaValid) (hintact : b.Intact) : c.Intact := by
  induction h with
  | done => exact hintact
  | fold hsite hrest ih => exact ih (hb.foldSite _) (hsite.intact hb hintact)

end FoldsTo

/-- **Folding ends where nothing can be folded, and keeps bodies valid.**  It is a chain of folds
and counts them; each takes two instructions off the sequence and changes the slot of the first one
only.  References that are left were there before and are as live as before, and one that is gone
has gone with an instruction that was folded.  No operation is ever removed that traps in the body
that a fold finds.  A body that needs no repair needs none afterwards. -/
theorem foldLiterals_reaches_fixpoint (b : MethodBody) (hb : b.ArenaValid) :
    ∃ folds, b.FoldsTo folds b.foldLiterals.1 ∧ b.foldLiterals.2 = folds.length ∧
      b.order.length = b.foldLiterals.1.order.length + 2 * b.foldLiterals.2 ∧
      (b.foldLiterals.1.order =
          b.order.filter fun id => folds.all fun fold => fold.2.keeps id) ∧
      (∀ id, (∀ fold ∈ folds, id ≠ fold.2.first) → b.foldLiterals.1.get? id = b.get? id) ∧
      b.foldLiterals.1.handlers = b.handlers ∧
      (∀ id ∈ b.foldLiterals.1.references,
        id ∈ b.references ∧ (id ∈ b.order → id ∈ b.foldLiterals.1.order)) ∧
      (∀ id ∈ b.references, id ∈ b.order → id ∈ b.foldLiterals.1.order ∨
        ∃ fold ∈ folds, ∃ holder ∈ fold.2.ids, ∃ i,
          fold.1.get? holder = some i ∧ id ∈ i.targets) ∧
      (∀ site p, ¬ b.foldLiterals.1.IsFoldSite site p) ∧
      (∀ fold ∈ folds, ∀ p id, fold.1.TrapsAt p → fold.1.idAt? (p + 2) = some id →
        id ∈ b.foldLiterals.1.order) ∧
      (b.repair.2.changed = false → b.foldLiterals.1.repair.2.changed = false) := by
  obtain ⟨folds, hfolds, hcount⟩ := b.exists_foldsTo_foldLiterals
  refine ⟨folds, hfolds, hcount, ?_, hfolds.order hb, fun id hid => hfolds.get? hid,
    hfolds.handlers, fun id hid => hfolds.references hb hid,
    fun id hid hlive => hfolds.mem_order_or hb hid hlive,
    foldSite?_eq_none_iff.mp b.foldSite?_foldLiterals,
    fun fold hfold p id htraps hid => hfolds.trapsAt_of_mem hb hfold htraps hid, ?_⟩
  · rw [hcount]
    exact hfolds.length hb
  · have hvalid : b.foldLiterals.1.ArenaValid := hb.thin b.thins_foldLiterals
    rw [RepairReport.changed_eq_false_iff, RepairReport.changed_eq_false_iff,
      repair_report_iff hb, repair_report_iff hvalid]
    exact hfolds.intact hb

/-- A sum inside a product, a division by a difference that is zero, and a sum that something jumps
into.  The boundaries of the handler are literals, and at the first of them a fold makes another. -/
def nestedBody : MethodBody where
  arena := [.shortestLiteral 6, .shortestLiteral 7, .shortestLiteral 5, .bare (.binary .add),
    .bare (.binary .mul), .bare .pop, .shortestLiteral 9, .shortestLiteral 1, .shortestLiteral 1,
    .bare (.binary .sub), .bare (.binary .div), .bare .pop, .shortestLiteral 1, .shortestLiteral 2,
    .bare (.binary .add), ⟨.branch .brtrue .short, .target ⟨13⟩, 0⟩, .bare .ret]
  order := [⟨0⟩, ⟨1⟩, ⟨2⟩, ⟨3⟩, ⟨4⟩, ⟨5⟩, ⟨6⟩, ⟨7⟩, ⟨8⟩, ⟨9⟩, ⟨10⟩, ⟨11⟩, ⟨12⟩, ⟨13⟩, ⟨14⟩, ⟨15⟩,
    ⟨16⟩]
  locals := []
  handlers := [.finalizing ⟨0⟩ ⟨6⟩ ⟨6⟩ (some ⟨12⟩)]
  maxStack := 8
  initLocals := true

/-- Three triples are folded, and then the division is one by zero and stays. -/
theorem nestedBody_reaches_fixpoint :
    nestedBody.ArenaValid ∧ nestedBody.repair.2.changed = false ∧
      nestedBody.foldLiterals.1.order =
        [⟨0⟩, ⟨5⟩, ⟨6⟩, ⟨7⟩, ⟨10⟩, ⟨11⟩, ⟨12⟩, ⟨13⟩, ⟨14⟩, ⟨15⟩, ⟨16⟩] ∧
      nestedBody.foldLiterals.2 = 3 ∧ nestedBody.foldLiterals.1.repair.2.changed = false := by
  have hb : nestedBody.ArenaValid := by decide
  have hunchanged : nestedBody.repair.2.changed = false := by decide
  obtain ⟨folds, -, -, hlength, -, -, -, -, -, -, -, hrepair⟩ :=
    foldLiterals_reaches_fixpoint nestedBody hb
  -- The inner triple of the product is found first, since what contains it is no triple yet.
  have hsum : nestedBody.foldSite? = some ⟨⟨1⟩, ⟨2⟩, ⟨3⟩, 12⟩ := rfl
  have hproduct : (nestedBody.foldSite ⟨⟨1⟩, ⟨2⟩, ⟨3⟩, 12⟩).foldSite? =
      some ⟨⟨0⟩, ⟨1⟩, ⟨4⟩, 72⟩ := rfl
  have hzero : ((nestedBody.foldSite ⟨⟨1⟩, ⟨2⟩, ⟨3⟩, 12⟩).foldSite ⟨⟨0⟩, ⟨1⟩, ⟨4⟩, 72⟩).foldSite? =
      some ⟨⟨7⟩, ⟨8⟩, ⟨9⟩, 0⟩ := rfl
  have horder : nestedBody.foldLiterals.1.order =
      [⟨0⟩, ⟨5⟩, ⟨6⟩, ⟨7⟩, ⟨10⟩, ⟨11⟩, ⟨12⟩, ⟨13⟩, ⟨14⟩, ⟨15⟩, ⟨16⟩] := by
    rw [foldLiterals_of_some hsum, foldLiterals_of_some hproduct, foldLiterals_of_some hzero,
      foldLiterals_of_none rfl]
    decide
  refine ⟨hb, hunchanged, horder, ?_, hrepair hunchanged⟩
  have hold : nestedBody.order.length = 17 := rfl
  rw [horder, hold] at hlength
  have hcount : 17 = 11 + 2 * nestedBody.foldLiterals.2 := hlength
  omega

/-- A literal that names the second instruction of the triple behind its own. -/
def aimedLiteral : MethodBody where
  arena := [{ Instruction.shortestLiteral 1 with operand := .target ⟨4⟩ }, .shortestLiteral 2,
    .bare (.binary .add), .shortestLiteral 3, .shortestLiteral 4, .bare (.binary .add), .bare .pop,
    .bare .pop, .bare .ret]
  order := [⟨0⟩, ⟨1⟩, ⟨2⟩, ⟨3⟩, ⟨4⟩, ⟨5⟩, ⟨6⟩, ⟨7⟩, ⟨8⟩]
  locals := []
  handlers := []
  maxStack := 8
  initLocals := true

/-- **Folding can lose a live reference:** the first fold takes the name away, and the second one
what it named. -/
theorem aimedLiteral_loses_reference :
    aimedLiteral.ArenaValid ∧ aimedLiteral.repair.2.changed = false ∧
      ∃ id ∈ aimedLiteral.references, id ∈ aimedLiteral.order ∧
        id ∉ aimedLiteral.foldLiterals.1.order := by
  have hfirst : aimedLiteral.foldSite? = some ⟨⟨0⟩, ⟨1⟩, ⟨2⟩, 3⟩ := rfl
  have hsecond : (aimedLiteral.foldSite ⟨⟨0⟩, ⟨1⟩, ⟨2⟩, 3⟩).foldSite? =
      some ⟨⟨3⟩, ⟨4⟩, ⟨5⟩, 7⟩ := rfl
  have horder : aimedLiteral.foldLiterals.1.order = [⟨0⟩, ⟨3⟩, ⟨6⟩, ⟨7⟩, ⟨8⟩] := by
    rw [foldLiterals_of_some hfirst, foldLiterals_of_some hsecond, foldLiterals_of_none rfl]
    decide
  refine ⟨by decide, by decide, ⟨4⟩, by decide, by decide, ?_⟩
  rw [horder]
  decide

end MethodBody

end CilRepair
