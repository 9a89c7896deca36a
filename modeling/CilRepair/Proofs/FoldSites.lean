import CilRepair.Body.Folding
import CilRepair.Proofs.Thinning

/-!
# Fold sites

What a search for a foldable triple finds, and what folding it leaves: two instructions leave the
sequence, the first one of the three becomes a literal, and nothing else changes.

* `MethodBody.IsFoldSite`, `MethodBody.exists_isFoldSite` — a found site, read off the sequence.
* `MethodBody.order_foldSite`, `MethodBody.get?_foldSite_first` — the folded body.
* `MethodBody.foldGrowth` — the bytes that a fold adds to the code, if it does not save any.
* `Instruction.literal?_shortestLiteral` — the new literal pushes the value.
* `MethodBody.foldLiterals_of_some` — all folds are the first one and the others.

## Design notes

`IsFoldSite` says by places what the search says by the identities that it comes across.  All that
is proved of folding starts from it, and the search itself is opened only here and where its failure
is read.

The folded body is described by what it keeps: its sequence is a filter by `FoldSite.keeps`, so that
the lemmas about thinned bodies apply, and its slots are the old ones but for the first of the
triple.  In a valid body a filter and the two removals are the same thing.
-/

namespace CilRepair

/-! ### Literals and operations -/

/-- Only operations are folded. -/
theorem OpCode.exists_binary_of_fold? {op : OpCode} {x y value : Int32}
    (h : op.fold? x y = some value) : ∃ operation, op = .binary operation := by
  cases op with
  | binary operation => exact ⟨operation, rfl⟩
  | _ => exact absurd h (by simp [OpCode.fold?])

/-- An operation is no literal. -/
theorem Instruction.literal?_of_binary {i : Instruction} {operation : BinaryOp}
    (h : i.opcode = .binary operation) : i.literal? = none := by
  simp [literal?, h]

/-- **The shortest literal of a number pushes that number.** -/
@[simp] theorem Instruction.literal?_shortestLiteral (value : Int32) :
    (shortestLiteral value).literal? = some value := by
  rw [shortestLiteral]
  split
  · next h =>
      -- The opcodes of their own are counted from `-1` on.
      have hnat : Int32.ofNat (value.toInt + 1).toNat - 1 = value := by
        rw [← Int32.ofInt_eq_ofNat, Int.toNat_of_nonneg (by omega), Int32.ofInt_add,
          Int32.ofInt_toInt]
        simp
      exact congrArg some hnat
  · split
    · next h =>
        have hround : value.toInt8.toInt32 = value := by
          rw [← Int32.toInt_inj, Int8.toInt_toInt32, Int32.toInt_toInt8]
          exact Int.bmod_eq_of_le (by omega) (by omega)
        exact congrArg some hround
    · rfl

/-- The identities that a fold keeps: all but the last two of the triple. -/
def FoldSite.keeps (site : FoldSite) (id : InstrId) : Bool := id != site.second && id != site.third

/-- A fold keeps what is not one of the two, -/
theorem FoldSite.keeps_eq_true_iff {site : FoldSite} {id : InstrId} :
    site.keeps id = true ↔ id ≠ site.second ∧ id ≠ site.third := by
  rw [keeps, Bool.and_eq_true, bne_iff_ne, bne_iff_ne]

/-- not the second -/
theorem FoldSite.keeps_second (site : FoldSite) : site.keeps site.second = false := by
  simp [keeps]

/-- and not the third. -/
theorem FoldSite.keeps_third (site : FoldSite) : site.keeps site.third = false := by
  simp [keeps]

namespace MethodBody

variable {b : MethodBody} {site : FoldSite} {id first second third : InstrId} {i : Instruction}
  {p : Nat} {value : Int32}

/-! ### Sites -/

/-- The value of a triple is the result of its operation on its literals. -/
theorem tripleValue?_eq_some_iff :
    b.tripleValue? first second third = some value ↔
      ∃ i j k x y, b.get? first = some i ∧ i.literal? = some x ∧ b.get? second = some j ∧
        j.literal? = some y ∧ b.get? third = some k ∧ k.opcode.fold? x y = some value := by
  simp only [tripleValue?, bind, Option.bind_eq_some_iff]
  constructor
  · rintro ⟨i, hi, x, hx, j, hj, y, hy, k, hk, hvalue⟩
    exact ⟨i, j, k, x, y, hi, hx, hj, hy, hk, hvalue⟩
  · rintro ⟨i, j, k, x, y, hi, hx, hj, hy, hk, hvalue⟩
    exact ⟨i, hi, x, hx, j, hj, y, hy, k, hk, hvalue⟩

/-- **A site, read off the sequence:** three neighbours that have a value, the last two of which
nothing names. -/
structure IsFoldSite (b : MethodBody) (site : FoldSite) (p : Nat) : Prop where
  first : b.idAt? p = some site.first
  second : b.idAt? (p + 1) = some site.second
  third : b.idAt? (p + 2) = some site.third
  second_notMem : site.second ∉ b.references
  third_notMem : site.third ∉ b.references
  value : b.tripleValue? site.first site.second site.third = some site.value

/-- What the search returns is a triple that it has looked at, with all that it asks for. -/
theorem foldSiteIn?_eq_some {references order : List InstrId}
    (h : b.foldSiteIn? references order = some site) :
    (∃ p : Nat, order[p]? = some site.first ∧ order[p + 1]? = some site.second ∧
      order[p + 2]? = some site.third) ∧
      site.second ∉ references ∧ site.third ∉ references ∧
      b.tripleValue? site.first site.second site.third = some site.value := by
  fun_induction foldSiteIn? b references order with
  | case1 first second third rest value? value hvalue =>
      obtain rfl := Option.some.inj h
      obtain ⟨hnamed, hvalue⟩ : (second ∉ references ∧ third ∉ references) ∧
          b.tripleValue? first second third = some value := by
        simpa [value?, not_or] using hvalue
      exact ⟨⟨0, rfl, rfl, rfl⟩, hnamed.1, hnamed.2, hvalue⟩
  | case2 first second third rest value? hvalue ih =>
      obtain ⟨⟨p, hfirst, hsecond, hthird⟩, hrest⟩ := ih h
      exact ⟨⟨p + 1, hfirst, hsecond, hthird⟩, hrest⟩
  | case3 => exact absurd h (by simp)

/-- **A search finds a site.** -/
theorem exists_isFoldSite (h : b.foldSite? = some site) : ∃ p, b.IsFoldSite site p := by
  obtain ⟨⟨p, hfirst, hsecond, hthird⟩, hsecond', hthird', hvalue⟩ := foldSiteIn?_eq_some h
  exact ⟨p, hfirst, hsecond, hthird, hsecond', hthird', hvalue⟩

/-- The first of the triple is kept: the sequence names it once. -/
theorem IsFoldSite.keeps_first (h : b.IsFoldSite site p) (hb : b.ArenaValid) :
    site.keeps site.first = true := by
  refine FoldSite.keeps_eq_true_iff.mpr ⟨fun heq => ?_, fun heq => ?_⟩
  · have := hb.idAt?_inj (heq ▸ h.first) h.second
    omega
  · have := hb.idAt?_inj (heq ▸ h.first) h.third
    omega

/-- What is named is kept. -/
theorem IsFoldSite.keeps_of_mem_references (h : b.IsFoldSite site p) (hid : id ∈ b.references) :
    site.keeps id = true := by
  refine FoldSite.keeps_eq_true_iff.mpr ⟨?_, ?_⟩
  · rintro rfl
    exact h.second_notMem hid
  · rintro rfl
    exact h.third_notMem hid

/-- All places but the last two of the triple are kept.  The identities that go are named in the
site, and a place has one identity. -/
theorem IsFoldSite.keeps_iff (h : b.IsFoldSite site p) (hb : b.ArenaValid) {q : Nat}
    (hq : b.idAt? q = some id) : site.keeps id = true ↔ q ≠ p + 1 ∧ q ≠ p + 2 := by
  rw [FoldSite.keeps_eq_true_iff]
  constructor
  · rintro ⟨hsecond, hthird⟩
    refine ⟨?_, ?_⟩
    · rintro rfl
      exact hsecond (Option.some.inj (hq.symm.trans h.second))
    · rintro rfl
      exact hthird (Option.some.inj (hq.symm.trans h.third))
  · rintro ⟨hsecond, hthird⟩
    refine ⟨?_, ?_⟩
    · rintro rfl
      exact hsecond (hb.idAt?_inj hq h.second)
    · rintro rfl
      exact hthird (hb.idAt?_inj hq h.third)

/-! ### The folded body -/

/-- **The sequence of the folded body** is the old one without the last two of the triple. -/
theorem order_foldSite (hb : b.ArenaValid) (site : FoldSite) :
    (b.foldSite site).order = b.order.filter site.keeps := by
  have herase : (b.foldSite site).order = (b.order.erase site.second).erase site.third := rfl
  rw [herase, (hb.nodup.erase site.second).erase_eq_filter, hb.nodup.erase_eq_filter,
    List.filter_filter]
  exact List.filter_congr fun id _ => Bool.and_comm _ _

/-- Two identities less, and as many slots. -/
theorem thins_foldSite (b : MethodBody) (site : FoldSite) : b.Thins (b.foldSite site) :=
  ⟨List.erase_sublist.trans List.erase_sublist, List.length_modify _ _ _⟩

theorem ArenaValid.foldSite (hb : b.ArenaValid) (site : FoldSite) :
    (b.foldSite site).ArenaValid := hb.thin (thins_foldSite b site)

/-- **The first instruction of the triple becomes the literal.**  It keeps its identity, so that
what named it still does. -/
theorem get?_foldSite_first (hslot : site.first.slot < b.arena.length) :
    (b.foldSite site).get? site.first = some (.shortestLiteral site.value) := by
  have harena : (b.foldSite site).arena =
      b.arena.modify site.first.slot fun _ => .shortestLiteral site.value := rfl
  rw [get?, harena, List.getElem?_modify_eq, List.getElem?_eq_getElem hslot]
  rfl

/-- All other slots are as they were. -/
theorem get?_foldSite_of_ne (hid : id ≠ site.first) : (b.foldSite site).get? id = b.get? id := by
  have hslot : site.first.slot ≠ id.slot := fun h => hid (InstrId.slot_injective h).symm
  exact List.getElem?_modify_ne _ _ hslot

/-- The instructions of the folded body are old ones and the literal. -/
theorem mem_instructions_foldSite (hb : b.ArenaValid) (h : i ∈ (b.foldSite site).instructions) :
    i ∈ b.instructions ∨ i = .shortestLiteral site.value := by
  obtain ⟨id, hid, hi⟩ := List.mem_filterMap.mp h
  have hmem : id ∈ b.order := ((mem_order_thinned (order_foldSite hb site)).mp hid).1
  by_cases hfirst : id = site.first
  · subst hfirst
    rw [get?_foldSite_first (hb.slot_lt _ hmem)] at hi
    exact Or.inr (Option.some.inj hi).symm
  · rw [get?_foldSite_of_ne hfirst] at hi
    exact Or.inl (List.mem_filterMap.mpr ⟨id, hmem, hi⟩)

/-- The size of the instruction in a slot, and zero if there is none. -/
def slotSize (b : MethodBody) (id : InstrId) : Nat := ((b.get? id).map Instruction.size).getD 0

/-- **The bytes by which a fold makes code longer:** those that the literal needs more than the
triple did. -/
def foldGrowth (b : MethodBody) (site : FoldSite) : Nat :=
  (Instruction.shortestLiteral site.value).size -
    (b.slotSize site.first + b.slotSize site.second + b.slotSize site.third)

/-! ### All folds -/

/-- Without a site nothing is folded. -/
theorem foldLiterals_of_none (h : b.foldSite? = none) : b.foldLiterals = (b, 0) := by
  rw [foldLiterals]
  split
  · rfl
  · next site hsite => exact absurd (h.symm.trans hsite) (by simp)

/-- **All folds are the first one and the others.** -/
theorem foldLiterals_of_some (h : b.foldSite? = some site) :
    b.foldLiterals = ((b.foldSite site).foldLiterals.1, (b.foldSite site).foldLiterals.2 + 1) := by
  rw [foldLiterals]
  split
  · next hsite => exact absurd (h.symm.trans hsite) (by simp)
  · next other hsite =>
      obtain rfl : site = other := Option.some.inj (h.symm.trans hsite)
      rfl

/-- Folding only takes identities off the sequence.  By induction on the folds. -/
theorem thins_foldLiterals (b : MethodBody) : b.Thins b.foldLiterals.1 := by
  induction b using foldLiterals.induct with
  | case1 b hnone =>
      rw [foldLiterals_of_none hnone]
      exact Thins.refl b
  | case2 b site hsome folded count hfolded ih =>
      rw [foldLiterals_of_some hsome]
      exact (thins_foldSite b site).trans ih

end MethodBody

end CilRepair
