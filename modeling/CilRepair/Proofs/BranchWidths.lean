import CilRepair.Proofs.Offsets

/-!
# Branch widths

Narrowing goes in rounds.  Within a round every decision is made on the offsets from before the
round, while other branches become narrow as well.  That is sound for one reason: smaller
instructions only shorten displacements (`Shrinks.displacement_mem`), so a branch that would reach
its destination if it alone were narrow reaches it whatever else is narrowed with it.

* `MethodBody.Reaches` — an instruction has a live target within the reach of a signed byte.
* `MethodBody.canNarrow_iff` — the test of a round, read as a statement about the body in which one
  branch is narrow.
* `MethodBody.Narrowing` — what every round keeps.
* `MethodBody.optimizeBranches_eq_iterate` — the loop is a number of rounds, at most one for each
  wide branch, and the next round would find nothing.
* `MethodBody.TightlyLaidOut`, `MethodBody.tightlyLaidOut_canonicalizeBranches` — the result.

## Design notes

Whether a branch reaches its target is asked of a body with its offsets up to date, and the answer
goes by sums of sizes, `startAt`, which do not wrap.  `LaidOut` ties the two together as long as the
code size fits in 32 bits, and `Narrowing` carries that bound along: rounds make code shorter only.

Local maximality is stated of the final body, one wide branch at a time, as the body in which it
alone were narrow.  It is what the last round has found out, since its count is zero.

The bound is one on the widest form.  Nothing better holds: `wrappingBody` fits in 32 bits as it is,
and its first offsets, computed for the widest form, do not.
-/

namespace CilRepair

namespace Instruction

/-- An instruction with the narrow form of its opcode. -/
def narrowed (i : Instruction) : Instruction := { i with opcode := i.opcode.toShort }

variable {i : Instruction}

/-- The wide instructions are the branches in their long form. -/
theorem isWide_iff : i.isWide = true ↔ ∃ kind, i.opcode = .branch kind .long := by
  rcases i with ⟨op, operand, offset⟩
  cases op with
  | branch kind form => cases form <;> simp [isWide, OpCode.toShort]
  | _ => simp [isWide, OpCode.toShort]

/-- A narrow branch is three bytes shorter. -/
theorem size_narrowed (h : i.isWide = true) : i.narrowed.size + 3 = i.size := by
  obtain ⟨kind, hop⟩ := isWide_iff.mp h
  rcases i with ⟨op, operand, offset⟩
  obtain rfl : op = .branch kind .long := hop
  cases kind <;> rfl

theorem branchTarget?_eq_some_iff {id : InstrId} :
    i.branchTarget? = some id ↔ i.operand = .target id := by
  rcases i with ⟨op, operand, offset⟩
  cases operand <;> simp [branchTarget?]

end Instruction

namespace MethodBody

variable {b c : MethodBody} {p q : Nat} {i j : Instruction}

/-! ### One narrow branch -/

/-- The body in which the instruction at a place has its narrow form. -/
def narrowAt (b : MethodBody) (p : Nat) : MethodBody :=
  match b.idAt? p with
  | some id => b.modify id Instruction.narrowed
  | none => b

@[simp] theorem order_narrowAt (b : MethodBody) (p : Nat) : (b.narrowAt p).order = b.order := by
  unfold narrowAt
  split <;> rfl

@[simp] theorem idAt?_narrowAt (b : MethodBody) (p q : Nat) :
    (b.narrowAt p).idAt? q = b.idAt? q := by
  rw [idAt?, idAt?, order_narrowAt]

/-- At the place itself stands the narrow form. -/
theorem at?_narrowAt_self (b : MethodBody) (p : Nat) :
    (b.narrowAt p).at? p = (b.at? p).map Instruction.narrowed := by
  rw [at?, at?, idAt?_narrowAt, narrowAt]
  cases b.idAt? p with
  | none => rfl
  | some id => simp [get?, modify]

/-- The other places are as they were.  Different places of a valid body have different slots, and
one slot is written. -/
theorem at?_narrowAt_of_ne (hb : b.ArenaValid) (hne : q ≠ p) :
    (b.narrowAt p).at? q = b.at? q := by
  rw [at?, at?, idAt?_narrowAt]
  cases hq : b.idAt? q with
  | none => rfl
  | some other =>
      rw [narrowAt]
      cases hp : b.idAt? p with
      | none => rfl
      | some id =>
          have hslot : id.slot ≠ other.slot := fun h =>
            hne (hb.idAt?_inj hq (InstrId.slot_injective h ▸ hp))
          simp [get?, modify, List.getElem?_modify, hslot]

/-- Only the size at the place changes, by three. -/
theorem sizeAt_narrowAt (hb : b.ArenaValid) (hi : b.at? p = some i) (hwide : i.isWide = true)
    (q : Nat) : (b.narrowAt p).sizeAt q + (if q = p then 3 else 0) = b.sizeAt q := by
  by_cases hq : q = p
  · subst hq
    have hnarrow : (b.narrowAt q).at? q = some i.narrowed := by
      rw [at?_narrowAt_self, hi, Option.map_some]
    rw [if_pos rfl, sizeAt_of_at? hi, sizeAt_of_at? hnarrow, Instruction.size_narrowed hwide]
  · rw [if_neg hq, sizeAt, sizeAt, at?_narrowAt_of_ne hb hq, Nat.add_zero]

/-- What lies behind the narrow branch moves up by three bytes. -/
theorem startAt_narrowAt (hb : b.ArenaValid) (hi : b.at? p = some i) (hwide : i.isWide = true)
    (q : Nat) : (b.narrowAt p).startAt q + (if p < q then 3 else 0) = b.startAt q := by
  induction q with
  | zero => rfl
  | succ q ih =>
      have hsize := sizeAt_narrowAt hb hi hwide q
      rw [startAt_succ, startAt_succ]
      split_ifs at ih hsize ⊢ <;> omega

/-! ### Reach -/

/-- **The instruction has a live target that a signed byte reaches** from the end of a place. -/
def Reaches (b : MethodBody) (p : Nat) (i : Instruction) : Prop :=
  ∃ target q, i.operand = .target target ∧ b.idAt? q = some target ∧
    b.displacement p q ∈ Set.Icc (-128) 127

/-- **What is in reach stays in reach** when instructions become smaller. -/
theorem Reaches.of_shrinks (h : b.Reaches p i) (hshrinks : Shrinks b c)
    (horder : c.order = b.order) (hoperand : j.operand = i.operand) : c.Reaches p j := by
  obtain ⟨target, q, htarget, hq, hfits⟩ := h
  refine ⟨target, q, hoperand.trans htarget, ?_, ?_⟩
  · rw [idAt?, horder, ← idAt?, hq]
  · exact hshrinks.displacement_mem (by decide) (by decide) hfits

/-- The displacement that the test computes is that of the body in which one branch is narrow: for a
target behind the branch the three bytes are taken off both ends, and for one before it off one. -/
theorem narrowDisplacement?_eq (hb : b.ArenaValid) (hlaid : b.LaidOut) (hi : b.at? p = some i)
    (hwide : i.isWide = true) {target : InstrId} (htarget : i.operand = .target target)
    (hq : b.idAt? q = some target) :
    b.narrowDisplacement? p i = some ((b.narrowAt p).displacement p q) := by
  obtain ⟨destination, hdestination⟩ := hb.exists_get? (mem_order_iff.mpr ⟨q, hq⟩)
  have hat : b.at? q = some destination := (at?_of_idAt? hq).trans hdestination
  have hstart : i.offset.toNat = b.startAt p := hlaid p i hi
  have hend : destination.offset.toNat = b.startAt q := hlaid q destination hat
  have hnext : b.startAt (p + 1) = b.startAt p + i.size := by rw [startAt_succ, sizeAt_of_at? hi]
  have hmoved := startAt_narrowAt hb hi hwide q
  have hclosed := startAt_narrowAt hb hi hwide (p + 1)
  rw [if_pos (Nat.lt_succ_self p)] at hclosed
  have hplace : b.lastPosition? target = some q := (lastPosition?_eq_some_iff hb).mpr hq
  -- Both sides are differences of the same sums; the three bytes count for what lies behind.
  simp only [narrowDisplacement?, Instruction.branchTarget?_eq_some_iff.mpr htarget, hplace,
    hdestination, hstart, hend, displacement, Option.some.injEq]
  split_ifs at hmoved ⊢ <;> omega

/-- **The test of a round:** the branch is wide, and narrow it would reach its destination.  A
branch with a dead destination fails the test and is reached by nothing, so the two agree there as
well. -/
theorem canNarrow_iff (hb : b.ArenaValid) (hlaid : b.LaidOut) (hi : b.at? p = some i) :
    b.canNarrow p i = true ↔ i.isWide = true ∧ (b.narrowAt p).Reaches p i := by
  rw [canNarrow, Bool.and_eq_true, Option.any_eq_true]
  refine and_congr_right fun hwide => ⟨?_, ?_⟩
  · -- The test computes a displacement only for a live target.
    rintro ⟨displacement, hdisplacement, hfits⟩
    obtain ⟨target, q, htarget, hq⟩ :
        ∃ target q, i.operand = .target target ∧ b.idAt? q = some target := by
      rw [narrowDisplacement?] at hdisplacement
      cases htarget : i.branchTarget? with
      | none => simp [htarget] at hdisplacement
      | some target =>
          cases hq : b.lastPosition? target with
          | none => simp [htarget, hq] at hdisplacement
          | some q => exact ⟨target, q, Instruction.branchTarget?_eq_some_iff.mp htarget,
              (lastPosition?_eq_some_iff hb).mp hq⟩
    rw [narrowDisplacement?_eq hb hlaid hi hwide htarget hq] at hdisplacement
    obtain rfl := Option.some.inj hdisplacement
    exact ⟨target, q, htarget, by rw [idAt?_narrowAt, hq], by simpa [fitsByte] using hfits⟩
  · rintro ⟨target, q, htarget, hq, hfits⟩
    rw [idAt?_narrowAt] at hq
    exact ⟨_, narrowDisplacement?_eq hb hlaid hi hwide htarget hq, by simpa [fitsByte] using hfits⟩

/-! ### One round -/

/-- A step finds its place from the number of places behind it. -/
theorem length_sub_drop (hp : p < b.length) :
    b.length - (b.order.drop (p + 1)).length - 1 = p := by
  rw [List.length_drop]
  change b.length - (b.length - (p + 1)) - 1 = p
  omega

/-- A round narrows at each place where the test says so. -/
theorem at?_narrowRound (hb : b.ArenaValid) (p : Nat) :
    b.narrowRound.1.at? p =
      (b.at? p).map fun i => if b.canNarrow p i then i.narrowed else i := by
  refine (at?_sweep_eq_map b.narrowStep 0 hb p).trans ?_
  cases hi : b.at? p with
  | none => rfl
  | some i =>
      simp only [Option.map_some, narrowStep, length_sub_drop (at?_lt hi)]
      split <;> rfl

/-- Sizes after a round: smaller where a branch was narrowed, and the same elsewhere. -/
theorem sizeAt_narrowRound (hb : b.ArenaValid) (hi : b.at? p = some i) :
    b.narrowRound.1.sizeAt p = if b.canNarrow p i then i.narrowed.size else i.size := by
  have hround : b.narrowRound.1.at? p = some (if b.canNarrow p i then i.narrowed else i) := by
    rw [at?_narrowRound hb, hi, Option.map_some]
  rw [sizeAt_of_at? hround]
  split <;> rfl

theorem isWide_of_canNarrow (h : b.canNarrow p i = true) : i.isWide = true := by
  rw [canNarrow, Bool.and_eq_true] at h
  exact h.1

/-- A round makes no instruction larger.  A place either has a branch that is narrowed or keeps what
it has. -/
theorem shrinks_narrowRound (hb : b.ArenaValid) : Shrinks b b.narrowRound.1 := by
  intro p
  cases hi : b.at? p with
  | none => rw [sizeAt, at?_narrowRound hb, hi, Option.map_none]; exact Nat.zero_le _
  | some i =>
      rw [sizeAt_narrowRound hb hi, sizeAt_of_at? hi]
      split
      · next hnarrow =>
          have hsize := Instruction.size_narrowed (isWide_of_canNarrow hnarrow)
          omega
      · exact Nat.le_refl _

/-- **A round narrows each branch that it takes, and possibly more.**  So compared with the body in
which that branch alone is narrow, instructions have only become smaller. -/
theorem shrinks_narrowAt_narrowRound (hb : b.ArenaValid) (hi : b.at? p = some i)
    (hnarrow : b.canNarrow p i = true) : Shrinks (b.narrowAt p) b.narrowRound.1 := by
  intro q
  have hwide := isWide_of_canNarrow hnarrow
  have hone := sizeAt_narrowAt hb hi hwide q
  by_cases hq : q = p
  · subst hq
    have hsize := Instruction.size_narrowed hwide
    rw [if_pos rfl, sizeAt_of_at? hi] at hone
    rw [sizeAt_narrowRound hb hi, if_pos hnarrow]
    omega
  · rw [if_neg hq] at hone
    have hround := shrinks_narrowRound hb q
    omega

/-- A round that counts nothing found nothing to narrow. -/
theorem narrowRound_count_eq_zero_iff (hb : b.ArenaValid) :
    b.narrowRound.2 = 0 ↔ ∀ p i, b.at? p = some i → b.canNarrow p i = false := by
  refine sweep_snd_eq_iff b.narrowStep hb fun n p i hi => ?_
  have hposition : b.length - (b.order.drop (p + 1)).length - 1 = p :=
    length_sub_drop (at?_lt hi)
  rw [narrowStep, hposition]
  cases b.canNarrow p i <;> simp

/-! ### All rounds -/

/-- **A round of narrowing:** the offsets brought up to date, then one pass. -/
def narrowingRound (b : MethodBody) : MethodBody := b.updateOffsets.narrowRound.1

/-- **Narrowing ends.**  It is a number of rounds, at most one for each wide branch, and another
round would find nothing to narrow.  By the induction of its definition, in which each round that
goes on leaves fewer wide branches. -/
theorem optimizeBranches_eq_iterate (b : MethodBody) :
    ∃ n ≤ b.wideCount, b.optimizeBranches = (narrowingRound^[n] b).updateOffsets ∧
      (narrowingRound^[n] b).updateOffsets.narrowRound.2 = 0 := by
  induction b using optimizeBranches.induct with
  | case1 b h => exact ⟨0, Nat.zero_le _, by rw [optimizeBranches, if_pos h]; rfl, h⟩
  | case2 b h ih =>
      obtain ⟨n, hn, heq, hlast⟩ := ih
      have hround := wideCount_narrowRound b.updateOffsets
      rw [wideCount_updateOffsets] at hround
      refine ⟨n + 1, by omega, ?_, hlast⟩
      rw [optimizeBranches, if_neg h, heq]
      rfl

/-- **What every round keeps.**  In particular no branch is narrow that does not reach its
destination. -/
structure Narrowing (b : MethodBody) : Prop where
  valid : b.ArenaValid
  size_lt : b.codeSize < UInt32.size
  narrow_reaches : ∀ p i kind, b.at? p = some i → i.opcode = .branch kind .short → b.Reaches p i

/-- Wide branches only: nothing is narrow yet, and the size is the one that is bounded. -/
theorem narrowing_simplifyBranches (hb : b.ArenaValid)
    (hsize : b.simplifyBranches.codeSize < UInt32.size) : Narrowing b.simplifyBranches where
  valid := hb.sweep widen ()
  size_lt := hsize
  narrow_reaches p j kind hj hop := by
    rw [simplifyBranches, at?_sweep_eq_map widen () hb, Option.map_eq_some_iff] at hj
    obtain ⟨⟨op, operand, offset⟩, -, rfl⟩ := hj
    cases op <;> simp [widen, OpCode.toLong] at hop

/-- New offsets change no size and no reach. -/
theorem Narrowing.updateOffsets (h : Narrowing b) : Narrowing b.updateOffsets where
  valid := h.valid.sweep placeAt 0
  size_lt := by
    rw [codeSize, startAt_updateOffsets h.valid]
    exact h.size_lt
  narrow_reaches p j kind hj hop := by
    rw [at?_updateOffsets h.valid, Option.map_eq_some_iff] at hj
    obtain ⟨i, hi, rfl⟩ := hj
    exact (h.narrow_reaches p i kind hi hop).of_shrinks
      (fun q => (sizeAt_updateOffsets h.valid q).le) rfl rfl

/-- **A round keeps it.**  A branch that was narrow before stays in reach; one that the round made
narrow was in reach with itself narrow alone. -/
theorem Narrowing.narrowRound (h : Narrowing b) (hlaid : b.LaidOut) :
    Narrowing b.narrowRound.1 where
  valid := h.valid.sweep b.narrowStep 0
  size_lt := Nat.lt_of_le_of_lt ((shrinks_narrowRound h.valid).startAt_le _) h.size_lt
  narrow_reaches p j kind hj hop := by
    rw [at?_narrowRound h.valid, Option.map_eq_some_iff] at hj
    obtain ⟨i, hi, rfl⟩ := hj
    by_cases hnarrow : b.canNarrow p i = true
    · -- The test was made on old offsets, as if this branch were the only one to be narrowed.
      obtain ⟨-, hreaches⟩ := (canNarrow_iff h.valid hlaid hi).mp hnarrow
      exact hreaches.of_shrinks (shrinks_narrowAt_narrowRound h.valid hi hnarrow)
        (order_narrowAt b p).symm (by rw [if_pos hnarrow]; rfl)
    · rw [if_neg hnarrow] at hop ⊢
      exact (h.narrow_reaches p i kind hi hop).of_shrinks (shrinks_narrowRound h.valid) rfl rfl

theorem Narrowing.narrowingRound (h : Narrowing b) : Narrowing b.narrowingRound :=
  h.updateOffsets.narrowRound (laidOut_updateOffsets h.valid h.size_lt)

/-- So any number of rounds keeps it. -/
theorem Narrowing.iterate (h : Narrowing b) (n : Nat) :
    Narrowing (MethodBody.narrowingRound^[n] b) := by
  induction n with
  | zero => exact h
  | succ n ih =>
      rw [Function.iterate_succ_apply']
      exact ih.narrowingRound

/-! ### The result -/

/-- **A tight layout.**  Offsets are the sums of the sizes before them; a narrow branch has a live
target within its reach; and a wide branch would not reach its target, or has no live one, if it
alone were narrow. -/
structure TightlyLaidOut (b : MethodBody) : Prop where
  offsets : b.LaidOut
  narrow_reaches : ∀ p i kind, b.at? p = some i → i.opcode = .branch kind .short → b.Reaches p i
  wide_needed : ∀ p i kind, b.at? p = some i → i.opcode = .branch kind .long →
    ¬ (b.narrowAt p).Reaches p i

/-- When a round finds nothing, the layout is tight: its test has failed for every wide branch. -/
theorem Narrowing.tightlyLaidOut (h : Narrowing b)
    (hlast : b.updateOffsets.narrowRound.2 = 0) : b.updateOffsets.TightlyLaidOut where
  offsets := laidOut_updateOffsets h.valid h.size_lt
  narrow_reaches := h.updateOffsets.narrow_reaches
  wide_needed p i kind hi hop hreaches := by
    have hnarrow : b.updateOffsets.canNarrow p i = true :=
      (canNarrow_iff h.updateOffsets.valid (laidOut_updateOffsets h.valid h.size_lt) hi).mpr
        ⟨Instruction.isWide_iff.mpr ⟨kind, hop⟩, hreaches⟩
    rw [(narrowRound_count_eq_zero_iff h.updateOffsets.valid).mp hlast p i hi] at hnarrow
    exact absurd hnarrow (by decide)

/-- **Canonical branch widths are sound and locally maximal.**  Widening every branch and then
narrowing what fits ends after at most as many rounds as there are wide branches, and leaves the
same code, in a tight layout if the offsets fit in 32 bits.  The size that has to fit is that of the
widest form, which is the one that the first offsets are computed for. -/
theorem tightlyLaidOut_canonicalizeBranches (b : MethodBody) (hb : b.ArenaValid) :
    (∃ n ≤ b.simplifyBranches.wideCount,
      b.canonicalizeBranches = (narrowingRound^[n] b.simplifyBranches).updateOffsets ∧
        (narrowingRound^[n] b.simplifyBranches).updateOffsets.narrowRound.2 = 0) ∧
      (b.simplifyBranches.codeSize < UInt32.size → b.canonicalizeBranches.TightlyLaidOut) ∧
      b.canonicalizeBranches.erased = b.erased := by
  obtain ⟨n, hn, heq, hlast⟩ := optimizeBranches_eq_iterate b.simplifyBranches
  refine ⟨⟨n, hn, heq, hlast⟩, fun hsize => ?_, erased_canonicalizeBranches b⟩
  rw [canonicalizeBranches, heq]
  exact ((narrowing_simplifyBranches hb hsize).iterate n).tightlyLaidOut hlast

/-- A branch over a table and another branch, which comes into reach only when that one is narrow,
and a branch back over all of it. -/
def cascadingBody : MethodBody where
  arena := [⟨.branch .br .long, .target ⟨3⟩, 0⟩, ⟨.switch, .switch (List.replicate 30 ⟨4⟩), 0⟩,
    ⟨.branch .brtrue .short, .target ⟨3⟩, 0⟩, ⟨.branch .brfalse .long, .target ⟨0⟩, 0⟩,
    ⟨.ret, .absent, 0⟩]
  order := [⟨0⟩, ⟨1⟩, ⟨2⟩, ⟨3⟩, ⟨4⟩]
  locals := []
  handlers := []
  maxStack := 8
  initLocals := true

/-- Two rounds narrow the first two branches, to a displacement of exactly `127`; the third would
have `-131` and stays wide. -/
theorem cascadingBody_tightlyLaidOut :
    (cascadingBody.ArenaValid ∧ cascadingBody.simplifyBranches.codeSize < UInt32.size) ∧
      cascadingBody.canonicalizeBranches.TightlyLaidOut ∧
      cascadingBody.canonicalizeBranches.instructions.map (fun i => (i.opcode, i.offset)) =
        [(.branch .br .short, 0), (.switch, 2), (.branch .brtrue .short, 127),
          (.branch .brfalse .long, 129), (.ret, 134)] := by
  obtain ⟨-, htight, -⟩ := tightlyLaidOut_canonicalizeBranches cascadingBody (by decide)
  refine ⟨⟨by decide, by decide⟩, htight (by decide), ?_⟩
  rw [canonicalizeBranches, optimizeBranches, if_neg (by decide), optimizeBranches,
    if_neg (by decide), optimizeBranches, if_pos (by decide)]
  decide

/-! ### A widest form that is too long -/

section OverTable

variable {ids : List InstrId} {second table last : UInt32}

/-- Two branches over a table, with the offsets of what comes behind the first. -/
def overTable (form : BranchForm) (ids : List InstrId) (second table last : UInt32) :
    MethodBody where
  arena := [⟨.branch .br form, .target ⟨3⟩, 0⟩, ⟨.branch .br form, .target ⟨3⟩, second⟩,
    ⟨.switch, .switch ids, table⟩, ⟨.ret, .absent, last⟩]
  order := [⟨0⟩, ⟨1⟩, ⟨2⟩, ⟨3⟩]
  locals := []
  handlers := []
  maxStack := 8
  initLocals := true

/-- The offsets of the wide form, -/
theorem updateOffsets_overTable_long : (overTable .long ids second table last).updateOffsets =
    overTable .long ids 5 10 (UInt32.ofNat (10 + (1 + (4 + 4 * ids.length)))) := rfl

/-- and those of the narrow one. -/
theorem updateOffsets_overTable_short : (overTable .short ids second table last).updateOffsets =
    overTable .short ids 2 4 (UInt32.ofNat (4 + (1 + (4 + 4 * ids.length)))) := rfl

/-- Where the return begins, -/
theorem startAt_overTable_short :
    (overTable .short ids second table last).startAt 3 = 9 + 4 * ids.length := by
  change 4 + (1 + (4 + 4 * ids.length)) = _
  omega

/-- and where the code ends. -/
theorem codeSize_overTable_short :
    (overTable .short ids second table last).codeSize = 10 + 4 * ids.length := by
  change (overTable .short ids second table last).startAt 3 + 1 = _
  rw [startAt_overTable_short]
  omega

/-- With a table of this length the offset of the return wraps to three in the widest form, where
both branches seem to be close to it; when they are narrow it does not wrap. -/
theorem canonicalizeBranches_overTable (hlength : ids.length = 1073741821) :
    (overTable .short ids 0 0 0).canonicalizeBranches = overTable .short ids 2 4 4294967293 := by
  have hwide : (overTable .short ids 0 0 0).simplifyBranches = overTable .long ids 0 0 0 := rfl
  have hwrapped : (overTable .long ids 0 0 0).updateOffsets = overTable .long ids 5 10 3 := by
    rw [updateOffsets_overTable_long, hlength]
    rfl
  have hfirst : (overTable .long ids 5 10 3).narrowRound = (overTable .short ids 5 10 3, 2) := rfl
  have hexact : (overTable .short ids 5 10 3).updateOffsets =
      overTable .short ids 2 4 4294967293 := by
    rw [updateOffsets_overTable_short, hlength]
    rfl
  have hlast : (overTable .short ids 2 4 4294967293).narrowRound =
      (overTable .short ids 2 4 4294967293, 0) := rfl
  rw [canonicalizeBranches, hwide, optimizeBranches, hwrapped, hfirst,
    if_neg (Nat.succ_ne_zero 1), optimizeBranches, hexact, hlast, if_pos rfl]

end OverTable

/-- Two narrow branches over a table of almost four gigabytes. -/
def wrappingBody : MethodBody := overTable .short (List.replicate 1073741821 ⟨3⟩) 0 0 0

/-- **Code that fits in 32 bits need not fit in its widest form,** and then a branch can end up
narrow whose destination is far away.  The check of the arena has nothing to say about sizes. -/
theorem wrappingBody_out_of_reach :
    wrappingBody.arenaFault? = none ∧ wrappingBody.codeSize < UInt32.size ∧
      wrappingBody.canonicalizeBranches.at? 0 = some ⟨.branch .br .short, .target ⟨3⟩, 0⟩ ∧
      wrappingBody.canonicalizeBranches.idAt? 3 = some ⟨3⟩ ∧
      wrappingBody.canonicalizeBranches.displacement 0 3 = 4294967291 ∧
      ¬ wrappingBody.canonicalizeBranches.TightlyLaidOut := by
  have hlength : (List.replicate 1073741821 (⟨3⟩ : InstrId)).length = 1073741821 :=
    List.length_replicate
  have hcanonical : wrappingBody.canonicalizeBranches =
      overTable .short (List.replicate 1073741821 ⟨3⟩) 2 4 4294967293 :=
    canonicalizeBranches_overTable hlength
  have hcode : wrappingBody.codeSize < UInt32.size := by
    rw [wrappingBody, codeSize_overTable_short, hlength]
    decide
  have hfar : (overTable .short (List.replicate 1073741821 ⟨3⟩) 2 4 4294967293).displacement 0 3 =
      4294967291 := by
    rw [displacement, startAt_overTable_short, hlength]
    rfl
  rw [hcanonical]
  refine ⟨rfl, hcode, rfl, rfl, hfar, fun htight => ?_⟩
  obtain ⟨target, q, htarget, hq, hfits⟩ := htight.narrow_reaches 0 _ .br rfl rfl
  obtain rfl : ⟨3⟩ = target := Operand.target.inj htarget
  have hvalid : (overTable .short (List.replicate 1073741821 ⟨3⟩) 2 4 4294967293).ArenaValid :=
    arenaFault?_eq_none_iff.mp rfl
  obtain rfl : q = 3 := hvalid.idAt?_inj hq rfl
  rw [hfar] at hfits
  exact absurd hfits.2 (by decide)

end MethodBody

end CilRepair
