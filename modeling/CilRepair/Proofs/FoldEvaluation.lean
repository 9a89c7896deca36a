import CilRepair.Proofs.FoldSites
import CilRepair.Proofs.Remapping
import CilRepair.Proofs.Runs

/-!
# Folding keeps answers

Where the old run takes two literals onto the stack and replaces them by the result of an operation,
the new run takes the result onto the stack.  Nothing jumps into the triple behind its first
instruction, so a run is only there when it comes from the first one, and the stacks differ as long
as it is there.

* `BinaryOp.arithmetic?_eq_of_fold?` — folding and evaluation compute alike what the evaluator
  models.
* `MethodBody.FoldRelated` — a state of the old run and the state of the new one.
* `Evaluator.simulation_foldSite` — one fold.
* `Evaluator.foldLiterals_keeps_answers` — all folds.

Folding knows more operations than evaluation, which leaves the stack as it is where it does not
model one.  A body that uses none of them is preserved.

## Design notes

The two runs do not take the same number of steps, so they are compared by a simulation: related
states stay related, and the new run never needs more steps than the old one.  Inside of the triple
the old run moves and the new one waits.

The relation mentions the place of the triple and its operands, and not the code around it.  That
control is inside only when it came through the first instruction is part of the relation, for no
other state is related to a place inside; the proof obligation is that no step leads there, and that
is what the search has checked when it asked whether the inside is named.

The list of operations that the evaluator does not model is a definition, and the theorem excludes
just these.
-/

namespace CilRepair

/-- The operations that are folded and not evaluated. -/
def BinaryOp.unmodelled : List BinaryOp := [.rem, .and, .or, .xor, .shl, .shr]

/-- **Folding and evaluation compute alike.**  A division that traps is not folded, so it does not
matter what the evaluator makes of one. -/
theorem BinaryOp.arithmetic?_eq_of_fold? {op : BinaryOp} (hop : op ∉ BinaryOp.unmodelled)
    {x y value : Int32} (h : op.fold? x y = some value) : arithmetic? op x y = some value := by
  cases op with
  | add | sub | mul => exact h
  | div =>
      have hzero : y ≠ 0 := by
        rintro rfl
        simp [fold?] at h
      obtain ⟨-, hvalue⟩ : _ ∧ x / y = value := by simpa [fold?] using h
      simp [arithmetic?, hzero, hvalue]
  | _ => exact absurd (by decide) hop

/-! ### Steps of the triple -/

section Step

variable {memory : Memory} {id : InstrId} {i : Instruction} {x y value : Int32}
  {stack locals : List Int32}

theorem step_of_literal? (h : i.literal? = some value) :
    step memory id i ⟨stack, locals⟩ = .ok (⟨value :: stack, locals⟩, none) := by
  rw [step, h]
  rfl

/-- An operation that is folded replaces its operands by the same result.  The operations that the
evaluator does not model are excluded; those it computes as the fold does, wrapping included. -/
theorem step_of_fold? (hop : ∀ op ∈ BinaryOp.unmodelled, i.opcode ≠ .binary op)
    (h : i.opcode.fold? x y = some value) :
    step memory id i ⟨y :: x :: stack, locals⟩ = .ok (⟨value :: stack, locals⟩, none) := by
  obtain ⟨op, hbinary⟩ := OpCode.exists_binary_of_fold? h
  have hmodelled : op ∉ BinaryOp.unmodelled := fun hmem => hop op hmem hbinary
  have hliteral := Instruction.literal?_of_binary hbinary
  rw [hbinary] at h
  have hvalue := BinaryOp.arithmetic?_eq_of_fold? hmodelled h
  rw [step, hliteral]
  simp only [hbinary]
  cases op with
  | add | sub | mul | div => simp [stepBinary, hvalue, proceed]
  | _ => exact absurd (by decide) hmodelled

end Step

namespace MethodBody

/-- **The states of the two runs around a folded triple** at a place `k` with operands `x` and `y`.
Outside the triple, and before it, the frames agree; inside it the old run has the operands that it
has got so far, and the new one has the result already. -/
inductive FoldRelated (b : MethodBody) (site : FoldSite) (k : Nat) (x y : Int32) :
    Nat → Frame → Nat → Frame → Prop
  | outside (p : Nat) (frame : Frame) (hsecond : p ≠ k + 1) (hthird : p ≠ k + 2) :
      FoldRelated b site k x y p frame (b.rank site.keeps p) frame
  | second (stack locals : List Int32) :
      FoldRelated b site k x y (k + 1) ⟨x :: stack, locals⟩
        (b.rank site.keeps k + 1) ⟨site.value :: stack, locals⟩
  | third (stack locals : List Int32) :
      FoldRelated b site k x y (k + 2) ⟨y :: x :: stack, locals⟩
        (b.rank site.keeps k + 1) ⟨site.value :: stack, locals⟩

end MethodBody

namespace Evaluator

open MethodBody

variable {e : Evaluator} {site : FoldSite} {target : InstrId} {p k : Nat} {id : InstrId}
  {i : Instruction} {frame : Frame} {x y : Int32}

/-- **A step outside the triple is a step of the folded body,** and control stays outside, because
nothing names the inside and the place in front of it is the first instruction of the triple. -/
theorem progress_outside (hb : e.body.ArenaValid) (hsite : e.body.IsFoldSite site k)
    (hid : e.body.idAt? p = some id) (hi : e.body.get? id = some i) (hfirst : p ≠ k)
    (hsecond : p ≠ k + 1) (hthird : p ≠ k + 2) (frame : Frame) :
    Progress e (e.withBody (e.body.foldSite site)) target (e.body.FoldRelated site k x y) p frame
      (e.body.rank site.keeps p) frame := by
  have horder := order_foldSite hb site
  have hmem : id ∈ e.body.order := mem_order_iff.mpr ⟨p, hid⟩
  have hkeep : site.keeps id = true := (hsite.keeps_iff hb hid).mpr ⟨hsecond, hthird⟩
  have hid' := idAt?_rank horder hid hkeep
  have hne : id ≠ site.first := by
    rintro rfl
    exact hfirst (hb.idAt?_inj hid hsite.first)
  have hi' : (e.body.foldSite site).get? id = some i := (get?_foldSite_of_ne hne).trans hi
  have hstep := stepAt_eq hid hi frame
  have hstep' := stepAt_eq (e := e.withBody (e.body.foldSite site)) hid' hi' frame
  rw [memory_withBody] at hstep'
  cases hresult : step e.memory id i frame with
  | error reason =>
      rw [hresult] at hstep hstep'
      exact .stop reason (hid'.trans hid.symm) rfl hstep hstep'
  | ok result =>
      obtain ⟨next, jump⟩ := result
      rw [hresult] at hstep hstep'
      refine .both _ next _ next (hid'.trans hid.symm) rfl hstep hstep' ?_
      -- What is named is kept, so a jump does not arrive inside the triple.
      have hnamed : ∀ t ∈ jump, site.keeps t = true := by
        rintro t rfl
        exact hsite.keeps_of_mem_references
          (mem_references_of_target hmem hi (mem_targets_of_step hresult))
      have hjump : jump.bind (e.body.foldSite site).lastPosition? =
          (jump.bind e.body.lastPosition?).map (e.body.rank site.keeps) := by
        cases jump with
        | none => rfl
        | some t => exact lastPosition?_thinned horder hb (hb.foldSite site) fun _ => hnamed t rfl
      rw [nextPosition_thinned hid hkeep hjump]
      -- Nor does control fall into it, as the place in front of it is the first of the triple.
      have hnext : e.nextPosition p jump ≠ k + 1 ∧ e.nextPosition p jump ≠ k + 2 := by
        rw [nextPosition]
        cases hdestination : jump.bind e.body.lastPosition? with
        | none =>
            rw [Option.getD_none]
            omega
        | some q =>
            obtain ⟨t, ht, hq⟩ := Option.bind_eq_some_iff.mp hdestination
            exact (hsite.keeps_iff hb ((lastPosition?_eq_some_iff hb).mp hq)).mp (hnamed t ht)
      exact .outside _ next hnext.1 hnext.2

/-- **A body with one triple folded simulates the body.**  Outside of the triple both runs move.  At
its first literal both push, the one a literal and the other the result; then the first run moves
alone until it has the result as well. -/
theorem simulation_foldSite (hb : e.body.ArenaValid) (hsite : e.body.IsFoldSite site k)
    (hop : ∀ op ∈ BinaryOp.unmodelled, ∀ i ∈ e.body.instructions, i.opcode ≠ .binary op)
    (hlive : target ∈ (e.body.foldSite site).order) :
    ∃ x y, Simulation e (e.withBody (e.body.foldSite site)) target
      (e.body.FoldRelated site k x y) := by
  obtain ⟨i, j, l, x, y, hi, hx, hj, hy, hl, hvalue⟩ := tripleValue?_eq_some_iff.mp hsite.value
  refine ⟨x, y, rfl, fun p frame p' frame' hrelated => ?_⟩
  have horder := order_foldSite hb site
  have htarget : site.keeps target = true := ((mem_order_thinned horder).mp hlive).2
  have hkeep := hsite.keeps_first hb
  have hfirst : site.first ∈ e.body.order := mem_order_iff.mpr ⟨k, hsite.first⟩
  have hthird : site.third ∈ e.body.order := mem_order_iff.mpr ⟨k + 2, hsite.third⟩
  -- Behind the first instruction the new run waits, at the place that follows the literal.
  have hrank : e.body.rank site.keeps (k + 1) = e.body.rank site.keeps k + 1 :=
    rank_succ_of_keep hsite.first hkeep
  have hrank' : e.body.rank site.keeps (k + 2 + 1) = e.body.rank site.keeps k + 1 := by
    rw [rank_succ_of_not_keep hsite.third site.keeps_third,
      rank_succ_of_not_keep hsite.second site.keeps_second, hrank]
  cases hrelated with
  | outside p frame hsecond hthird =>
      cases hid : e.body.idAt? p with
      | none =>
          have hid' := idAt?_rank_of_none horder hid
          exact .stop .notReached (hid'.trans hid.symm) rfl (stepAt_of_idAt?_eq_none hid _)
            (stepAt_of_idAt?_eq_none hid' _)
      | some id =>
          obtain ⟨m, hm⟩ := hb.exists_get? (mem_order_iff.mpr ⟨p, hid⟩)
          by_cases hpk : p = k
          · subst hpk
            -- At the first literal both runs push: the one the literal, the other the result.
            obtain rfl : site.first = id := Option.some.inj (hsite.first.symm.trans hid)
            have hid' := idAt?_rank horder hid hkeep
            have hi' := get?_foldSite_first (hb.slot_lt _ hfirst)
            have hstep := stepAt_eq hid hi frame
            have hstep' := stepAt_eq (e := e.withBody (e.body.foldSite site)) hid' hi' frame
            rw [step_of_literal? hx] at hstep
            rw [step_of_literal? (Instruction.literal?_shortestLiteral _)] at hstep'
            exact .both _ _ _ _ (hid'.trans hid.symm) rfl hstep hstep' (.second _ _)
          · exact progress_outside hb hsite hid hm hpk hsecond hthird frame
  | second stack locals =>
      have hne : site.second ≠ target := by
        rintro rfl
        exact absurd htarget (by simp [site.keeps_second])
      have hstep := stepAt_eq hsite.second hj ⟨x :: stack, locals⟩
      rw [step_of_literal? hy] at hstep
      exact .alone (k + 2) _ site.second hsite.second hne hstep (.third stack locals)
  | third stack locals =>
      have hne : site.third ≠ target := by
        rintro rfl
        exact absurd htarget (by simp [site.keeps_third])
      have hunmodelled : ∀ op ∈ BinaryOp.unmodelled, l.opcode ≠ .binary op := fun op hmem =>
        hop op hmem l (List.mem_filterMap.mpr ⟨_, hthird, hl⟩)
      have hstep := stepAt_eq hsite.third hl ⟨y :: x :: stack, locals⟩
      rw [step_of_fold? hunmodelled hvalue] at hstep
      refine .alone (k + 2 + 1) ⟨site.value :: stack, locals⟩ site.third hsite.third hne hstep ?_
      rw [← hrank']
      exact .outside _ _ (by omega) (by omega)

/-- **One fold keeps answers.**  The new run is related to the old one at the start and at the
target. -/
theorem peekStack_foldSite (hb : e.body.ArenaValid) (hsite : e.body.IsFoldSite site k)
    (hop : ∀ op ∈ BinaryOp.unmodelled, ∀ i ∈ e.body.instructions, i.opcode ≠ .binary op)
    (hlive : target ∈ (e.body.foldSite site).order)
    (h : e.peekStack target ≠ .unknown (.budgetExhausted e.budget)) :
    (e.withBody (e.body.foldSite site)).peekStack target = e.peekStack target := by
  obtain ⟨x, y, hsim⟩ := simulation_foldSite hb hsite hop hlive
  have hlive' : target ∈ e.body.order :=
    ((mem_order_thinned (order_foldSite hb site)).mp hlive).1
  exact hsim.peekStack_eq (.outside 0 _ (by omega) (by omega)) hlive' hlive h

/-- A fold brings no operation into a body, so the condition is kept for the next one. -/
theorem opcode_ne_of_mem_foldSite (hb : e.body.ArenaValid) {op : BinaryOp}
    (hop : ∀ i ∈ e.body.instructions, i.opcode ≠ .binary op) (site : FoldSite) :
    ∀ i ∈ (e.body.foldSite site).instructions, i.opcode ≠ .binary op := by
  intro i hi
  rcases mem_instructions_foldSite hb hi with hold | rfl
  · exact hop i hold
  · intro hbinary
    have hliteral := Instruction.literal?_shortestLiteral site.value
    simp [Instruction.literal?, hbinary] at hliteral

/-- **Folding keeps answers.**  Whatever the memory and the budget: if a body uses no operation that
the evaluator does not model, then what is on the stack at an instruction that folding leaves, or
why it is not known, is the same in the folded body, unless the budget ran out before.  By induction
on the folds. -/
theorem foldLiterals_keeps_answers (e : Evaluator) (hb : e.body.ArenaValid)
    (hop : ∀ op ∈ BinaryOp.unmodelled, ∀ i ∈ e.body.instructions, i.opcode ≠ .binary op)
    (target : InstrId) (hlive : target ∈ e.body.foldLiterals.1.order)
    (h : e.peekStack target ≠ .unknown (.budgetExhausted e.budget)) :
    (e.withBody e.body.foldLiterals.1).peekStack target = e.peekStack target := by
  obtain ⟨b, memory, budget, shift⟩ := e
  -- One fold after the other: each leaves a body without the operations, on which the run is not
  -- cut off either.
  induction b using foldLiterals.induct with
  | case1 b hnone =>
      rw [foldLiterals_of_none hnone]
      rfl
  | case2 b site hsome folded count hfolded ih =>
      obtain ⟨k, hsite⟩ := exists_isFoldSite hsome
      rw [foldLiterals_of_some hsome] at hlive ⊢
      have hlive' : target ∈ (b.foldSite site).order :=
        (thins_foldLiterals (b.foldSite site)).order.subset hlive
      have hone := peekStack_foldSite hb hsite hop hlive' h
      have hrest := ih (hb.foldSite site)
        (fun op hmem => opcode_ne_of_mem_foldSite hb (hop op hmem) site) hlive (hone ▸ h)
      exact hrest.trans hone

/-- A sum and a product of literals that control comes to from behind, and a sum that is not folded,
because something jumps into it.  What follows finds one value too few. -/
def foldedSum : Evaluator where
  body :=
    { arena := [⟨.branch .br .short, .target ⟨8⟩, 0⟩, ⟨.ldcI4 .short, .immediate (.int8 100), 0⟩,
        ⟨.ldcI4 .short, .immediate (.int8 30), 0⟩, ⟨.ldcI4 .short, .immediate (.int8 3), 0⟩,
        .bare (.binary .mul), .bare (.binary .add), .bare .pop,
        ⟨.branch .br .short, .target ⟨9⟩, 0⟩, ⟨.branch .br .short, .target ⟨1⟩, 0⟩,
        ⟨.ldcI4 .short, .immediate (.int8 7), 0⟩, ⟨.ldcI4 .short, .immediate (.int8 8), 0⟩,
        .bare (.binary .add), .bare (.binary .sub), ⟨.branch .br .short, .target ⟨10⟩, 0⟩]
      order := [⟨0⟩, ⟨1⟩, ⟨2⟩, ⟨3⟩, ⟨4⟩, ⟨5⟩, ⟨6⟩, ⟨7⟩, ⟨8⟩, ⟨9⟩, ⟨10⟩, ⟨11⟩, ⟨12⟩, ⟨13⟩]
      locals := []
      handlers := []
      maxStack := 8
      initLocals := false }
  memory := []
  budget := 100
  offsetShift := none

/-- The product is folded, then the sum, and the answers are the same. -/
theorem foldedSum_keeps_answers :
    foldedSum.body.foldLiterals.1.order =
        [⟨0⟩, ⟨1⟩, ⟨6⟩, ⟨7⟩, ⟨8⟩, ⟨9⟩, ⟨10⟩, ⟨11⟩, ⟨12⟩, ⟨13⟩] ∧
      (foldedSum.withBody foldedSum.body.foldLiterals.1).peekStack ⟨6⟩ = .known 190 ∧
      (foldedSum.withBody foldedSum.body.foldLiterals.1).peekStack ⟨13⟩ =
        .unknown (.stackUnderflow ⟨12⟩) := by
  have hproduct : foldedSum.body.foldSite? = some ⟨⟨2⟩, ⟨3⟩, ⟨4⟩, 90⟩ := rfl
  have hsum : (foldedSum.body.foldSite ⟨⟨2⟩, ⟨3⟩, ⟨4⟩, 90⟩).foldSite? =
      some ⟨⟨1⟩, ⟨2⟩, ⟨5⟩, 190⟩ := rfl
  have horder : foldedSum.body.foldLiterals.1.order =
      [⟨0⟩, ⟨1⟩, ⟨6⟩, ⟨7⟩, ⟨8⟩, ⟨9⟩, ⟨10⟩, ⟨11⟩, ⟨12⟩, ⟨13⟩] := by
    rw [foldLiterals_of_some hproduct, foldLiterals_of_some hsum, foldLiterals_of_none rfl]
    decide
  have hb : foldedSum.body.ArenaValid := by decide
  have hop : ∀ op ∈ BinaryOp.unmodelled, ∀ i ∈ foldedSum.body.instructions,
      i.opcode ≠ .binary op := by decide
  have hsum' : foldedSum.peekStack ⟨6⟩ = .known 190 := by decide
  have hunderflow : foldedSum.peekStack ⟨13⟩ = .unknown (.stackUnderflow ⟨12⟩) := by decide
  have hkeep := foldLiterals_keeps_answers foldedSum hb hop
  refine ⟨horder, ?_, ?_⟩
  · exact (hkeep ⟨6⟩ (by simp [horder]) (by simp [hsum'])).trans hsum'
  · exact (hkeep ⟨13⟩ (by simp [horder]) (by simp [hunderflow])).trans hunderflow

end Evaluator

end CilRepair
