import CilRepair.Names.ChaCha
import CilRepair.Proofs.BranchWidths
import CilRepair.Proofs.ModuleBodies
import CilRepair.Proofs.NopRemoval

/-!
# What stages do to displacements

Repair re-encodes branches only where it had something to repair, so a stage that changes the length
of code leaves narrow branches with other displacements.  Removal brings everything closer together.
A fold does so as well, unless its literal is longer than the triple that it replaces.

* `MethodBody.NarrowJump`, `MethodBody.NarrowJumpsWithin` — the narrow branches with a live target,
  and bounds for their displacements.
* `MethodBody.startAt_rank_le` — distances in a thinned body.
* `NarrowJumpsWithin.removeNops`, `NarrowJumpsWithin.foldSite` — what one pass does to the bounds.
* `Reworked.narrowJumpsWithin` — the bounds widen by the bytes that folding added, and no more.
* `stages_keep_displacements` — what is in reach after the stages and the repair.
* `stretchedContext_overflows` — one such byte is enough to put a branch out of reach.

## Design notes

Bounds on displacements are the invariant of a run of stages, not reach itself.  Each pass is then
one lemma about how it moves two bounds, and what a run of passes does to them is a sum.

A pass that removes code takes places to ranks, and a distance is compared with the distance between
ranks.  `startAt_rank_le` does that once, for any set of kept instructions whose sizes do not grow;
a fold satisfies its condition everywhere but at the literal, which is why distances across a fold
are taken in three parts.

`stretchedContext` is as tight as it can be.  Its branch reaches exactly as far as it may, and one
byte is added below it.
-/

namespace CilRepair

/-- The instruction is a branch in its narrow form. -/
def Instruction.isNarrow (i : Instruction) : Bool :=
  match i.opcode with
  | .branch _ .short => true
  | _ => false

theorem Instruction.isNarrow_iff {i : Instruction} :
    i.isNarrow = true ↔ ∃ kind, i.opcode = .branch kind .short := by
  rw [isNarrow]
  cases i.opcode with
  | branch kind form => cases form <;> simp
  | _ => simp

namespace MethodBody

variable {b c : MethodBody} {keep : InstrId → Bool} {site : FoldSite} {id : InstrId}
  {p q x y k g : Nat} {low high : Int}

/-! ### Narrow branches -/

/-- **A narrow branch at one place has its target at another.** -/
def NarrowJump (b : MethodBody) (p q : Nat) : Prop :=
  ∃ i kind target, b.at? p = some i ∧ i.opcode = .branch kind .short ∧
    i.operand = .target target ∧ b.idAt? q = some target

/-- **The displacements of narrow branches lie between two bounds.**  A branch to a dead target has
no displacement. -/
def NarrowJumpsWithin (b : MethodBody) (low high : Int) : Prop :=
  ∀ p q, b.NarrowJump p q → b.displacement p q ∈ Set.Icc low high

instance (b : MethodBody) (p q : Nat) : Decidable (b.NarrowJump p q) :=
  decidable_of_iff
      (∃ i ∈ b.at? p, i.isNarrow = true ∧ ∃ t ∈ i.branchTarget?, b.idAt? q = some t) <| by
    simp only [Instruction.isNarrow_iff, Option.mem_def, Instruction.branchTarget?_eq_some_iff]
    constructor
    · rintro ⟨i, hi, ⟨kind, hop⟩, target, htarget, hq⟩
      exact ⟨i, kind, target, hi, hop, htarget, hq⟩
    · rintro ⟨i, kind, target, hi, hop, htarget, hq⟩
      exact ⟨i, hi, ⟨kind, hop⟩, target, htarget, hq⟩

instance (b : MethodBody) (low high : Int) : Decidable (b.NarrowJumpsWithin low high) :=
  decidable_of_iff (∀ p < b.length, ∀ q < b.length, b.NarrowJump p q →
      low ≤ b.displacement p q ∧ b.displacement p q ≤ high) <| by
    constructor
    · rintro h p q hjump
      obtain ⟨i, kind, target, hi, hop, htarget, hq⟩ := hjump
      exact h p (at?_lt hi) q (idAt?_lt hq) ⟨i, kind, target, hi, hop, htarget, hq⟩
    · exact fun h p _ q _ hjump => h p q hjump

/-! ### Distances in a thinned body -/

/-- **Distances shrink in a thinned body,** if no instruction on the way became larger.  By
induction on the distance: a place is kept, and counts for no more than before, or goes. -/
theorem startAt_rank_le (hxy : x ≤ y)
    (hsize : ∀ z id, x ≤ z → z < y → b.idAt? z = some id → keep id = true →
      c.sizeAt (b.rank keep z) ≤ b.sizeAt z) :
    c.startAt (b.rank keep y) + b.startAt x ≤ b.startAt y + c.startAt (b.rank keep x) := by
  induction y, hxy using Nat.le_induction with
  | base => omega
  | succ y hy ih =>
      have ih := ih fun z id hxz hzy => hsize z id hxz (by omega)
      rw [startAt_succ]
      cases hid : b.idAt? y with
      | none =>
          rw [rank_succ_of_none hid]
          omega
      | some id =>
          cases hkeep : keep id with
          | false =>
              rw [rank_succ_of_not_keep hid hkeep]
              omega
          | true =>
              have := hsize y id hy (Nat.lt_succ_self y) hid hkeep
              rw [rank_succ_of_keep hid hkeep, startAt_succ]
              omega

/-- **Displacements widen by no more than distances.**  Forward ones stay forward, and what is
subtracted or added is bounded by `g` in either direction. -/
theorem displacement_rank_mem (hnext : b.rank keep (p + 1) = b.rank keep p + 1)
    (hforward : p + 1 ≤ q → c.startAt (b.rank keep q) + b.startAt (p + 1) ≤
      b.startAt q + c.startAt (b.rank keep (p + 1)) + g)
    (hbackward : q ≤ p + 1 → c.startAt (b.rank keep (p + 1)) + b.startAt q ≤
      b.startAt (p + 1) + c.startAt (b.rank keep q) + g)
    (hlow : low ≤ 0) (hhigh : 0 ≤ high) (h : b.displacement p q ∈ Set.Icc low high) :
    c.displacement (b.rank keep p) (b.rank keep q) ∈ Set.Icc (low - g) (high + g) := by
  obtain ⟨hge, hle⟩ := Set.mem_Icc.mp h
  rw [displacement] at hge hle
  rw [Set.mem_Icc, displacement, ← hnext]
  rcases Nat.le_total (p + 1) q with hpq | hqp
  · have hdistance := hforward hpq
    have horder := c.startAt_mono (b.rank_mono keep hpq)
    omega
  · have hdistance := hbackward hqp
    have horder := c.startAt_mono (b.rank_mono keep hqp)
    omega

/-! ### Removal of padding -/

/-- A narrow branch in the body without padding stands for one that was there before.  Its target
may have been padding, and has the rank of what follows. -/
theorem NarrowJump.of_removeNops (hb : b.ArenaValid) (h : b.removeNops.1.NarrowJump p q) :
    ∃ p' q' id, b.NarrowJump p' q' ∧ b.idAt? p' = some id ∧ b.keeps id = true ∧
      b.rank b.keeps p' = p ∧ b.rank b.keeps q' = q := by
  obtain ⟨j, kind, target, hj, hop, htarget, hq⟩ := h
  obtain ⟨p', id, i, hp', hi, hkeep, hrank, rfl⟩ := exists_of_at?_removeNops hb hj
  have hmem : id ∈ b.order := mem_order_iff.mpr ⟨p', hp'⟩
  -- The operand names what the old target has moved to.
  obtain ⟨old, hold, hmoved⟩ : ∃ old, i.operand = .target old ∧ b.padding.apply old = target := by
    rw [Instruction.operand_mapTargets] at htarget
    cases hoperand : i.operand with
    | target old =>
        rw [hoperand] at htarget
        exact ⟨old, rfl, Operand.target.inj htarget⟩
    | _ => simp [hoperand, Operand.mapTargets] at htarget
  have hnamed : old ∈ b.references := mem_references_of_target hmem hi (by
    rw [Instruction.targets, hold]
    exact List.mem_singleton_self _)
  have hplace := lastPosition?_unpadded hb hnamed
  rw [hmoved, (lastPosition?_eq_some_iff hb.removeNops).mpr hq, eq_comm, Option.map_eq_some_iff]
    at hplace
  obtain ⟨q', hq', hrank'⟩ := hplace
  exact ⟨p', q', id, ⟨i, kind, old, (at?_of_idAt? hp').trans hi, hop, hold,
    (lastPosition?_eq_some_iff hb).mp hq'⟩, hp', hkeep, hrank, hrank'⟩

/-- **Without padding no narrow branch reaches farther.**  What is kept has the size that it had. -/
theorem NarrowJumpsWithin.removeNops (h : b.NarrowJumpsWithin low high) (hb : b.ArenaValid)
    (hlow : low ≤ 0) (hhigh : 0 ≤ high) : b.removeNops.1.NarrowJumpsWithin low high := by
  intro p q hjump
  obtain ⟨p', q', id, hjump', hid, hkeep, rfl, rfl⟩ := hjump.of_removeNops hb
  have hsize : ∀ z id, b.idAt? z = some id → b.keeps id = true →
      b.removeNops.1.sizeAt (b.rank b.keeps z) ≤ b.sizeAt z := by
    intro z id hz hkeep
    have hmem : id ∈ b.order := mem_order_iff.mpr ⟨z, hz⟩
    obtain ⟨i, hi⟩ := hb.exists_get? hmem
    have hat : b.removeNops.1.at? (b.rank b.keeps z) = some (i.mapTargets b.padding.apply) := by
      rw [at?_of_idAt? (idAt?_rank b.order_removeNops hz hkeep), get?_removeNops hb hmem, hi,
        Option.map_some]
    rw [sizeAt_of_at? hat, sizeAt_of_at? ((at?_of_idAt? hz).trans hi), Instruction.size_mapTargets]
  have hmem := displacement_rank_mem (g := 0) (rank_succ_of_keep hid hkeep)
    (fun hle => startAt_rank_le hle fun z id _ _ => hsize z id)
    (fun hle => startAt_rank_le hle fun z id _ _ => hsize z id) hlow hhigh (h p' q' hjump')
  simpa using hmem

/-! ### Folding -/

/-- A narrow branch in the folded body was there before, and neither its end nor its target lies
inside the triple. -/
theorem NarrowJump.of_foldSite (hb : b.ArenaValid) (hsite : b.IsFoldSite site k)
    (h : (b.foldSite site).NarrowJump p q) :
    ∃ p' q' id, b.NarrowJump p' q' ∧ b.idAt? p' = some id ∧ site.keeps id = true ∧
      b.rank site.keeps p' = p ∧ b.rank site.keeps q' = q ∧
      (p' + 1 ≤ k ∨ k + 3 ≤ p' + 1) ∧ (q' ≤ k ∨ k + 3 ≤ q') := by
  obtain ⟨i, kind, target, hi, hop, htarget, hq⟩ := h
  have horder := order_foldSite hb site
  obtain ⟨id, hid, hget⟩ := at?_eq_some_iff.mp hi
  obtain ⟨p', hp', hkeep, hrank⟩ := exists_idAt?_of_thinned horder hb hid
  obtain ⟨q', hq', hkeep', hrank'⟩ := exists_idAt?_of_thinned horder hb hq
  -- The literal is no branch.
  have hfirst : id ≠ site.first := by
    rintro rfl
    rw [get?_foldSite_first (hb.slot_lt _ (mem_order_iff.mpr ⟨p', hp'⟩))] at hget
    obtain rfl := Option.some.inj hget
    have hliteral := Instruction.literal?_shortestLiteral site.value
    simp [Instruction.literal?, hop] at hliteral
  rw [get?_foldSite_of_ne hfirst] at hget
  have hne : p' ≠ k := by
    rintro rfl
    exact hfirst (Option.some.inj (hp'.symm.trans hsite.first))
  have hp := (hsite.keeps_iff hb hp').mp hkeep
  have hq := (hsite.keeps_iff hb hq').mp hkeep'
  exact ⟨p', q', id, ⟨i, kind, target, (at?_of_idAt? hp').trans hget, hop, htarget, hq'⟩, hp',
    hkeep, hrank, hrank', by omega, by omega⟩

theorem sizeAt_of_idAt? (hid : b.idAt? p = some id) : b.sizeAt p = b.slotSize id := by
  rw [sizeAt, slotSize, at?_of_idAt? hid]
  cases b.get? id <;> rfl

/-- Away from the triple the folded body has the old instructions, and distances shrink or stay. -/
theorem startAt_foldSite_outside (hb : b.ArenaValid) (hsite : b.IsFoldSite site k) (hxy : x ≤ y)
    (hk : ∀ z, x ≤ z → z < y → z ≠ k) :
    (b.foldSite site).startAt (b.rank site.keeps y) + b.startAt x ≤
      b.startAt y + (b.foldSite site).startAt (b.rank site.keeps x) := by
  refine startAt_rank_le hxy fun z id hxz hzy hz hkeep => ?_
  have hfirst : id ≠ site.first := by
    rintro rfl
    exact hk z hxz hzy (hb.idAt?_inj hz hsite.first)
  rw [sizeAt, sizeAt, at?_of_idAt? (idAt?_rank (order_foldSite hb site) hz hkeep),
    get?_foldSite_of_ne hfirst, at?_of_idAt? hz]

/-- The triple itself becomes the literal, which is longer by the growth at most.  The three old
sizes are added up, and the two other places have no size left. -/
theorem startAt_foldSite_triple (hb : b.ArenaValid) (hsite : b.IsFoldSite site k) :
    (b.foldSite site).startAt (b.rank site.keeps (k + 3)) + b.startAt k ≤
      b.startAt (k + 3) + (b.foldSite site).startAt (b.rank site.keeps k) +
        b.foldGrowth site := by
  have hkeep := hsite.keeps_first hb
  have hslot := hb.slot_lt _ (mem_order_iff.mpr ⟨k, hsite.first⟩)
  have hliteral : (b.foldSite site).at? (b.rank site.keeps k) =
      some (.shortestLiteral site.value) :=
    (at?_of_idAt? (idAt?_rank (order_foldSite hb site) hsite.first hkeep)).trans
      (get?_foldSite_first hslot)
  have hrank : b.rank site.keeps (k + 3) = b.rank site.keeps k + 1 := by
    rw [rank_succ_of_not_keep hsite.third site.keeps_third,
      rank_succ_of_not_keep hsite.second site.keeps_second,
      rank_succ_of_keep hsite.first hkeep]
  have hfolded : (b.foldSite site).startAt (b.rank site.keeps (k + 3)) =
      (b.foldSite site).startAt (b.rank site.keeps k) +
        (Instruction.shortestLiteral site.value).size := by
    rw [hrank, startAt_succ, sizeAt_of_at? hliteral]
  have hold : b.startAt (k + 3) = b.startAt k +
      (b.slotSize site.first + b.slotSize site.second + b.slotSize site.third) := by
    rw [startAt_succ, startAt_succ, startAt_succ, sizeAt_of_idAt? hsite.first,
      sizeAt_of_idAt? hsite.second, sizeAt_of_idAt? hsite.third]
    omega
  rw [hfolded, hold, foldGrowth]
  omega

/-- **A fold adds its growth to the distances across it,** and nothing to the others.  Ends inside
the triple are left out, since no kept instruction begins or ends there. -/
theorem startAt_foldSite_le (hb : b.ArenaValid) (hsite : b.IsFoldSite site k) (hxy : x ≤ y)
    (hx : x ≤ k ∨ k + 3 ≤ x) (hy : y ≤ k ∨ k + 3 ≤ y) :
    (b.foldSite site).startAt (b.rank site.keeps y) + b.startAt x ≤
      b.startAt y + (b.foldSite site).startAt (b.rank site.keeps x) + b.foldGrowth site := by
  rcases hx with hx | hx
  · rcases hy with hy | hy
    · have hshrunk := startAt_foldSite_outside hb hsite hxy fun z _ hz => by omega
      omega
    · -- What comes before the triple, the triple, and what comes behind it.
      have hbefore := startAt_foldSite_outside hb hsite hx fun z _ hz => by omega
      have htriple := startAt_foldSite_triple hb hsite
      have hbehind := startAt_foldSite_outside hb hsite hy fun z hz _ => by omega
      omega
  · have hshrunk := startAt_foldSite_outside hb hsite hxy fun z hz _ => by omega
    omega

/-- **A fold widens the bounds by its growth.** -/
theorem NarrowJumpsWithin.foldSite (h : b.NarrowJumpsWithin low high) (hb : b.ArenaValid)
    (hsite : b.IsFoldSite site k) (hlow : low ≤ 0) (hhigh : 0 ≤ high) :
    (b.foldSite site).NarrowJumpsWithin (low - b.foldGrowth site) (high + b.foldGrowth site) := by
  intro p q hjump
  obtain ⟨p', q', id, hjump', hid, hkeep, rfl, rfl, hp, hq⟩ := hjump.of_foldSite hb hsite
  exact displacement_rank_mem (rank_succ_of_keep hid hkeep)
    (fun hle => startAt_foldSite_le hb hsite hle hp hq)
    (fun hle => startAt_foldSite_le hb hsite hle hq hp) hlow hhigh (h p' q' hjump')

/-! ### Canonical widths -/

/-- **Canonical widths put every narrow branch in reach.**  A branch is only narrowed if its
displacement fits a signed byte, and narrowing others only brings its target closer. -/
theorem narrowJumpsWithin_canonicalizeBranches (hb : b.ArenaValid)
    (hsize : b.simplifyBranches.codeSize < UInt32.size) :
    b.canonicalizeBranches.NarrowJumpsWithin (-128) 127 := by
  obtain ⟨n, -, heq, hlast⟩ := optimizeBranches_eq_iterate b.simplifyBranches
  have htight := ((narrowing_simplifyBranches hb hsize).iterate n).tightlyLaidOut hlast
  rw [canonicalizeBranches, heq]
  rintro p q ⟨i, kind, target, hi, hop, htarget, hq⟩
  obtain ⟨target', q', htarget', hq', hfits⟩ := htight.narrow_reaches p i kind hi hop
  obtain rfl : target = target' := Operand.target.inj (htarget.symm.trans htarget')
  obtain rfl : q = q' := by
    refine ArenaValid.idAt?_inj ?_ hq hq'
    exact ((narrowing_simplifyBranches hb hsize).iterate n).updateOffsets.valid
  exact hfits

end MethodBody

/-! ### Stages -/

open MethodBody

/-- **Stages widen the bounds by the bytes that folding added,** and by nothing else.  By induction
on the passes that a body went through. -/
theorem Reworked.narrowJumpsWithin {b c : MethodBody} {n : Nat} (h : Reworked b n c)
    (hb : b.ArenaValid) {low high : Int} (hlow : low ≤ 0) (hhigh : 0 ≤ high)
    (hfits : b.NarrowJumpsWithin low high) : c.NarrowJumpsWithin (low - n) (high + n) := by
  induction h with
  | same => simpa using hfits
  | @retyped n c _ f ih =>
      have hstart : (c.mapReferences f).startAt = c.startAt := startAt_congr fun _ => rfl
      intro p q hjump
      rw [displacement, hstart]
      exact ih p q hjump
  | @folded n c h site hsite ih =>
      obtain ⟨k, hsite⟩ := exists_isFoldSite hsite
      have hfold := ih.foldSite (hb.thin h.thins) hsite (by omega) (by omega)
      rw [Nat.cast_add, ← sub_sub, ← add_assoc]
      exact hfold
  | @unpadded n c h ih => exact ih.removeNops (hb.thin h.thins) (by omega) (by omega)

/-- **What is in reach after the stages and the repair.**  Let every narrow branch of a module reach
its target.  Any selection of the built-in stages, in any order, makes other bodies of the bodies,
one of each, and repair comes after them.  A body that repair has to change gets canonical widths,
and its narrow branches reach their targets.  In a body that repair leaves alone they are out of
reach by no more than the bytes that folding added to it. -/
theorem stages_keep_displacements {σ : Type} [DrawSource σ] (stages : List (Stage σ))
    (hstages : ∀ stage ∈ stages, stage ∈ builtinStages) (c : StageContext σ)
    (hvalid : c.module.ArenasValid)
    (hfits : ∀ b ∈ c.module.bodies, b.NarrowJumpsWithin (-128) 127) :
    List.Forall₂
      (fun b d => ∃ n staged, Reworked b n staged ∧ d = staged.repairAndLayOut.1 ∧
        (staged.repairAndLayOut.2.changed = true → d.Addressable →
          staged.repair.1.simplifyBranches.codeSize < UInt32.size →
            d.NarrowJumpsWithin (-128) 127) ∧
        (staged.repairAndLayOut.2.changed = false →
          d.NarrowJumpsWithin (-128 - n) (127 + n)))
      c.module.bodies (runStages stages c).context.module.repair.1.bodies := by
  have hreworked := reworksBodies_runStages hstages c
  rw [Module.bodies_repair, List.forall₂_map_right_iff]
  refine List.Forall₂.imp ?_ ((List.forall₂_and_left _ _).mpr ⟨fun b hb => hb, hreworked⟩)
  rintro b staged ⟨hmem, n, h⟩
  have hstaged := (hvalid b hmem).thin h.thins
  refine ⟨n, staged, h, rfl, fun hchanged haddressable hsize => ?_, fun hunchanged => ?_⟩
  · have hroom := room_of_addressable haddressable
    have hlaid : staged.repairAndLayOut.1 = staged.repair.1.canonicalizeBranches := by
      have hchanged : staged.repair.2.changed = true := hchanged
      simp only [repairAndLayOut, hchanged, if_true]
    rw [hlaid]
    exact narrowJumpsWithin_canonicalizeBranches (intact_repair hstaged hroom).1 hsize
  · have hsame : staged.repairAndLayOut.1 = staged := by
      by_contra hne
      rw [(repairAndLayOut_ne_iff hstaged).mp hne] at hunchanged
      exact absurd hunchanged (by decide)
    rw [hsame]
    exact h.narrowJumpsWithin (hvalid b hmem) (by decide) (by decide) (hfits b hmem)

/-- A branch over a sum of two literals and twenty-four calls, as far as a narrow branch reaches. -/
def stretchedBody : MethodBody where
  arena :=
    [⟨.ldarg .short, .argument 0, 0⟩, ⟨.branch .brfalse .short, .target ⟨31⟩, 2⟩,
      ⟨.ldcI4 (.fixed (Fin.last 9)), .absent, 4⟩, ⟨.ldcI4 .short, .immediate (.int8 127), 5⟩,
      ⟨.binary .add, .absent, 7⟩, ⟨.stargS, .argument 0, 8⟩] ++
    (List.range 24).map (fun n => ⟨.call, .token ⟨3⟩, UInt32.ofNat (10 + 5 * n)⟩) ++
    [⟨.nop, .absent, 130⟩, ⟨.ret, .absent, 131⟩]
  order := (List.range 32).map fun n => ⟨UInt32.ofNat n⟩
  locals := []
  handlers := []
  maxStack := 8
  initLocals := false

/-- The only triple of the body. -/
def stretchedSite : FoldSite := ⟨⟨2⟩, ⟨3⟩, ⟨4⟩, 135⟩

/-- A module with that body, in the context of a run. -/
def stretchedContext : StageContext ChaCha :=
  PipelineConfig.context { source := .ofSeed 0 }
    { name := "sample"
      types :=
        [{ TypeDef.new ⟨1⟩ "" "T" with
            methods := [{ MethodDef.new ⟨2⟩ "f" with body := some stretchedBody }] }]
      entryPoint := none }

theorem bodies_stretchedContext : stretchedContext.module.bodies = [stretchedBody] := rfl

theorem stretchedContext_valid : stretchedContext.module.ArenasValid := by
  rw [Module.ArenasValid, bodies_stretchedContext, List.forall_mem_singleton]
  decide

theorem stretchedContext_within :
    ∀ b ∈ stretchedContext.module.bodies, b.NarrowJumpsWithin (-128) 127 := by
  rw [bodies_stretchedContext, List.forall_mem_singleton]
  decide

/-- After all built-in stages it is out of reach by no more than the bytes that folding added. -/
theorem stretchedContext_displacements :
    ∃ n staged, Reworked stretchedBody n staged ∧
      (runStages builtinStages stretchedContext).context.module.repair.1.bodies =
        [staged.repairAndLayOut.1] ∧
      (staged.repairAndLayOut.2.changed = false →
        staged.repairAndLayOut.1.NarrowJumpsWithin (-128 - n) (127 + n)) := by
  have hbodies := stages_keep_displacements builtinStages (fun _ h => h) stretchedContext
    stretchedContext_valid stretchedContext_within
  rw [bodies_stretchedContext, List.forall₂_cons_left_iff] at hbodies
  obtain ⟨d, rest, ⟨n, staged, hreworked, rfl, -, hwithin⟩, hrest, hsplit⟩ := hbodies
  rw [List.forall₂_nil_left_iff] at hrest
  rw [hrest] at hsplit
  exact ⟨n, staged, hreworked, hsplit, hwithin⟩

/-- The sum is folded, to a literal that is one byte longer. -/
theorem bodies_stretched :
    (runStages [foldStage] stretchedContext).context.module.bodies =
      [stretchedBody.foldSite stretchedSite] := by
  have hmodule : (runStages [foldStage] stretchedContext).context.module =
      (stretchedContext.module.visitBodies (foldEligible {} stretchedContext.module)).1 := rfl
  have hfold : stretchedBody.foldLiterals.1 = stretchedBody.foldSite stretchedSite := by
    have hfirst : stretchedBody.foldSite? = some stretchedSite := rfl
    rw [foldLiterals_of_some hfirst, foldLiterals_of_none rfl]
  rw [hmodule, Module.bodies_visitBodies, ← hfold]
  rfl

/-- Repair finds nothing to do in the folded body. -/
theorem unchanged_stretched :
    (stretchedBody.foldSite stretchedSite).repairAndLayOut.2.changed = false := by decide

/-- **A fold can put a branch out of reach.**  The displacement is `127` before and `128` after, and
repair does not look at it because it has nothing to repair. -/
theorem stretchedContext_overflows :
    stretchedContext.module.ArenasValid ∧
      (∀ b ∈ stretchedContext.module.bodies, b.NarrowJumpsWithin (-128) 127) ∧
      ∃ d ∈ (runStages [foldStage] stretchedContext).context.module.repair.1.bodies,
        d.NarrowJump 1 29 ∧ d.displacement 1 29 = 128 := by
  have hvalid : (stretchedBody.foldSite stretchedSite).ArenaValid := by decide
  have hsame : (stretchedBody.foldSite stretchedSite).repairAndLayOut.1 =
      stretchedBody.foldSite stretchedSite := by
    by_contra hne
    have hchanged := (repairAndLayOut_ne_iff hvalid).mp hne
    rw [unchanged_stretched] at hchanged
    exact absurd hchanged (by decide)
  refine ⟨stretchedContext_valid, stretchedContext_within,
    stretchedBody.foldSite stretchedSite, ?_, by decide, by decide⟩
  rw [Module.bodies_repair, bodies_stretched, List.map_singleton, hsame]
  exact List.mem_singleton_self _

end CilRepair
