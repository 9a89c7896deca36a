import CilRepair.Proofs.Budgets
import CilRepair.Proofs.MaxStack
import CilRepair.Proofs.ReachedTargets

/-!
# The stack of a run

The table of stack effects and the evaluator know the same instruction set by two routes: the table
counts values, and the evaluator moves them.  In a body of instructions that the evaluator models
they agree.  A run then carries a depth of the stack from place to place as the table does, so that
every consistent assignment of depths is the one that the run finds.

* `Instruction.isModelled`, `MethodBody.Modelled` — the instructions that the evaluator knows, and
  the bodies made of them.
* `length_stack_of_step` — one step leaves as many values as the table says.
* `Evaluator.Arrives` — the places and frames that a run goes through, without a budget.
* `Evaluator.Arrives.follows` — the invariant of a run: its stack has the assigned depth.
* `Evaluator.stack_follows_depths` — hence no run finds too few values, and the declared maximum of
  the stack covers all of them.

Of the terminal instructions a modelled body has `br`, which always jumps, and a `ret` at its end,
behind which there is nothing to run on to.  So the run follows the structure of the body.  A
modelled body does not call either, and the effects of the callees have no part in its depths.

## Design notes

`Arrives` leaves the budget and the target out.  A bound on the stack of a run must not depend on
when the run is asked for, and the frames that a query sees are among those of `Arrives`, whatever
the budget is.

The invariant has two clauses because a run may step off the end.  No depth is assigned there, and
the maximum still has to cover the frame; so the second clause is not a consequence of the first.

The maximum that a header holds stops at 65535.  At that number it may be too small, and the last
clause of the main theorem says nothing about it.
-/

namespace CilRepair

/-! ### Modelled instructions -/

/-- **The evaluator models the instruction.**  A literal has to have its value, and a branch its
destination. -/
def Instruction.isModelled (i : Instruction) : Bool :=
  match i.opcode with
  | .ldcI4 _ => i.literal?.isSome
  | .ldloc _ | .stloc _ | .binary .add | .binary .sub | .binary .mul | .binary .div | .dup | .pop
  | .ldindI4 | .ldsflda | .nop => true
  | .branch .br _ | .branch .beq _ | .branch .bneUn _ => i.branchTarget?.isSome
  | _ => false

/-- **The body is made of modelled instructions,** but for a `ret` at its end, and the destinations
of its branches are live. -/
structure MethodBody.Modelled (b : MethodBody) : Prop where
  instructions : ∀ p i, b.at? p = some i →
    i.isModelled = true ∨ i.opcode = .ret ∧ p + 1 = b.length
  destinations_live : ∀ p i, b.at? p = some i → i.isBranch = true →
    ∀ id ∈ i.branchTarget?, id ∈ b.order

theorem MethodBody.Modelled.modelled_or_ret {b : MethodBody} (hb : b.Modelled) {p : Nat}
    {i : Instruction} (hi : b.at? p = some i) : i.isModelled = true ∨ i.opcode = .ret :=
  (hb.instructions p i hi).imp_right And.left

open MethodBody

section Step

variable {memory : Memory} {id : InstrId} {i : Instruction} {frame next : Frame}
  {jump : Option InstrId}

/-- **A modelled instruction leaves as many values as the table says.**  There is one case for each
opcode.  A step that succeeds found the values that it takes, so that the subtraction of the table
does not stop at zero. -/
theorem length_stack_of_step (hi : i.isModelled = true ∨ i.opcode = .ret)
    (h : step memory id i frame = .ok (next, jump)) :
    next.stack.length = depthAfter i frame.stack.length := by
  rw [depthAfter]
  cases hop : i.opcode
  case ldcI4 form =>
    have hsome : i.literal?.isSome = true := by simpa [Instruction.isModelled, hop] using hi
    obtain ⟨value, hvalue⟩ := Option.isSome_iff_exists.mp hsome
    obtain ⟨rfl, -⟩ : _ ∧ _ := by simpa [step, hvalue, proceed] using h
    rfl
  case ldloc form =>
    obtain ⟨_, _, -, -, rfl, -⟩ := (step_load_eq_ok_iff (by rw [hop]; rfl)).mp h
    rfl
  case stloc form =>
    obtain ⟨_, _, rest, -, -, hstack, rfl, -⟩ := (step_store_eq_ok_iff (by rw [hop]; rfl)).mp h
    rw [hstack]
    rfl
  -- What is left goes by its opcode, and by how many values are on the stack.
  all_goals
    have hliteral : i.literal? = none := by simp [Instruction.literal?, hop]
    rw [step, hliteral, hop] at h
    rcases frame with ⟨stack, locals⟩
  case binary op =>
    cases op with
    | add | sub | mul | div =>
        rcases stack with _ | ⟨x, _ | ⟨y, rest⟩⟩
        · simp [stepBinary] at h
        · simp [stepBinary] at h
        · obtain ⟨rfl, -⟩ : _ ∧ _ := by simpa [stepBinary, proceed] using h
          rfl
    | _ => simp [Instruction.isModelled, hop] at hi
  case branch kind form =>
    cases kind with
    | br =>
        obtain ⟨rfl, -⟩ : _ ∧ _ := by simpa using h
        rfl
    | beq | bneUn =>
        obtain ⟨x, y, rest, hstack, rfl, -⟩ := stepCompare_eq_ok_iff.mp h
        rw [hstack]
        rfl
    | _ => simp [Instruction.isModelled, hop] at hi
  case dup | pop | ldindI4 =>
    cases stack with
    | nil => simp at h
    | cons top rest =>
        obtain ⟨rfl, -⟩ : _ ∧ _ := by simpa [proceed] using h
        rfl
  case nop | ret | ldsflda =>
    obtain ⟨rfl, -⟩ : _ ∧ _ := by simpa [proceed] using h
    rfl
  all_goals simp [Instruction.isModelled, hop] at hi

/-- A modelled instruction that does not let control fall through jumps away.  Of the terminal
opcodes only `br` is modelled, and a modelled one has its destination. -/
theorem Instruction.jumpsAway_of_isModelled (hi : i.isModelled = true)
    (hterminal : i.isTerminal = true) : i.jumpsAway = true := by
  cases hop : i.opcode
  case branch kind form =>
    cases kind with
    | br =>
        rcases i with ⟨op, operand, offset⟩
        cases hop
        cases operand <;> simp [isModelled, branchTarget?, jumpsAway] at hi ⊢
    | _ => simp [isModelled, isTerminal, hop, OpCode.flow, FlowKind.isTerminal] at hi hterminal
  -- The other opcodes are not terminal, or not modelled.
  all_goals simp [isModelled, isTerminal, hop, OpCode.flow, FlowKind.isTerminal] at hi hterminal

/-- No modelled instruction calls. -/
theorem Instruction.isCall_eq_false_of_isModelled (hi : i.isModelled = true ∨ i.opcode = .ret) :
    i.isCall = false := by
  rw [isCall]
  split
  all_goals first
    | (next hop => simp [isModelled, hop] at hi)
    | rfl

/-- No modelled instruction leaves a protected range. -/
theorem Instruction.flow_ne_leave (hi : i.isModelled = true ∨ i.opcode = .ret) :
    i.opcode.flow ≠ .leave := by
  cases hop : i.opcode
  case branch kind form => cases kind <;> simp [isModelled, hop, OpCode.flow] at hi ⊢
  all_goals simp [OpCode.flow]

end Step

namespace Evaluator

variable {e : Evaluator} {target id : InstrId} {i : Instruction} {p q n : Nat}
  {frame next final : Frame} {jump : Option InstrId} {locals : List Int32}
  {calls : Nat → Nat × Nat} {depth : Nat → Nat}

/-- **A step of a run follows the structure** of a modelled body.  It goes to the destination of a
branch, which is live, or to the next place, and the instruction then is not terminal. -/
theorem flowsTo_of_step (hb : e.body.ArenaValid) (hcode : e.body.Modelled)
    (hi : e.body.at? p = some i) (hstep : step e.memory id i frame = .ok (next, jump))
    (hinside : e.nextPosition p jump < e.body.length) :
    e.body.FlowsTo p (e.nextPosition p jump) := by
  refine ⟨i, hi, hinside, ?_⟩
  cases jump with
  | none =>
      have hnext : e.nextPosition p none = p + 1 := rfl
      refine Or.inr ⟨?_, hnext⟩
      rcases hcode.instructions p i hi with hmodelled | ⟨-, hend⟩
      · have hstays := jumpsAway_eq_false_of_step hstep
        have hfalls : i.isTerminal ≠ true := fun h => by
          simp [Instruction.jumpsAway_of_isModelled hmodelled h] at hstays
        simpa using hfalls
      · -- Behind the `ret` there is no place.
        rw [hnext] at hinside
        omega
  | some destination =>
      have hbranch : i.isBranch = true := by
        by_contra hnone
        have hjump := jump_eq_none_of_step (Bool.eq_false_iff.mpr hnone) hstep
        exact absurd hjump (by simp)
      have htarget : some destination = i.branchTarget? :=
        (jump_eq_of_step hstep).resolve_left (by simp)
      obtain ⟨q, hq⟩ :=
        mem_order_iff.mp (hcode.destinations_live p i hi hbranch destination htarget.symm)
      have hmem := mem_targets_of_step hstep
      refine Or.inl ⟨destination, hmem, ?_⟩
      rw [nextPosition, Option.bind_some, (lastPosition?_eq_some_iff hb).mpr hq,
        Option.getD_some, hq]

/-! ### Arrivals -/

/-- **The places that a run from given locals arrives at,** and its frames there.  Neither the
target nor the budget stops it. -/
inductive Arrives (e : Evaluator) (locals : List Int32) : Nat → Frame → Prop
  | start : Arrives e locals 0 ⟨[], locals⟩
  | step {p q : Nat} {frame next : Frame} (h : Arrives e locals p frame)
      (hstep : e.stepAt p frame = .ok (q, next)) : Arrives e locals q next

/-- A run to a target arrives there.  By induction on the budget, which `Arrives` does not
mention. -/
theorem Arrives.of_runFrom (harrives : e.Arrives locals p frame)
    (h : e.runFrom target n p frame = .ok final) :
    ∃ q, e.body.idAt? q = some target ∧ e.Arrives locals q final := by
  induction n generalizing p frame with
  | zero => exact absurd h runFrom_zero_ne_ok
  | succ n ih =>
      rcases runFrom_eq_ok_cases h with ⟨htarget, rfl⟩ | ⟨-, q, next, hstep, hrest⟩
      · exact ⟨p, htarget, harrives⟩
      · exact ih (harrives.step hstep) hrest

/-- **A run that ends with a fault of an instruction** arrives in front of it.  By induction on the
budget, which is not what gave out. -/
theorem Arrives.fault_of_runFrom (harrives : e.Arrives locals p frame)
    (h : e.runFrom target n p frame = .error (.stackUnderflow id)) :
    ∃ q next, e.Arrives locals q next ∧ e.stepAt q next = .error (.stackUnderflow id) := by
  induction n generalizing p frame with
  | zero => cases hid : e.body.idAt? p <;> simp [runFrom, hid] at h
  | succ n ih =>
      rw [runFrom_succ_eq] at h
      split at h
      · exact absurd h (by simp)
      · cases hstep : e.stepAt p frame with
        | error reason =>
            obtain rfl : reason = .stackUnderflow id := by simpa [hstep] using h
            exact ⟨p, frame, harrives, hstep⟩
        | ok moved =>
            simp only [hstep] at h
            exact ih (harrives.step hstep) h

/-- **The stack of a run has the assigned depth.**  Behind the end of the body no depth is assigned,
and the maximum of the search covers the stack there as well. -/
structure Follows (e : Evaluator) (depth : Nat → Nat) (p : Nat) (frame : Frame) : Prop where
  inside : p < e.body.length → e.body.Reached p ∧ frame.stack.length = depth p
  covered : frame.stack.length ≤ e.body.maxDepth

/-- Consistent depths are covered by the maximum of the search, before and behind instructions.  The
search may visit more places than a run, but no fewer. -/
theorem covered_of_reached (hb : e.body.ArenaValid) (hcode : e.body.Modelled)
    (hdepth : e.body.ConsistentDepths calls depth) (hreached : e.body.Reached p)
    (hi : e.body.at? p = some i) :
    depth p ≤ e.body.maxDepth ∧ depthAfter i (depth p) ≤ e.body.maxDepth := by
  have hcalls : ∀ p i, e.body.at? p = some i → i.isCall = false := fun p i hi =>
    Instruction.isCall_eq_false_of_isModelled (hcode.modelled_or_ret hi)
  obtain ⟨d, hd⟩ := (filled_depths_iff hb).mpr hreached
  obtain rfl := hdepth.eq_of_depths hb hcalls hd
  exact maxDepth_le_iff.mp (Nat.le_refl _) p _ i hd hi

/-- **One step keeps the invariant.**  The place that it goes to has the depth behind the
instruction, as does the frame. -/
theorem Follows.step (hb : e.body.ArenaValid) (hcode : e.body.Modelled)
    (hdepth : e.body.ConsistentDepths calls depth) (h : e.Follows depth p frame)
    (hstep : e.stepAt p frame = .ok (q, next)) : e.Follows depth q next := by
  obtain ⟨id, i, jump, hid, hi, hone, rfl⟩ := exists_of_stepAt hstep
  have hat : e.body.at? p = some i := at?_eq_some_iff.mpr ⟨id, hid, hi⟩
  have hmodelled := hcode.modelled_or_ret hat
  obtain ⟨hreached, hlength⟩ := h.inside (idAt?_lt hid)
  have hafter : next.stack.length = depthAfter i (depth p) := by
    rw [length_stack_of_step hmodelled hone, hlength]
  refine ⟨fun hinside => ?_, hafter ▸ (covered_of_reached hb hcode hdepth hreached hat).2⟩
  have hflow := flowsTo_of_step hb hcode hat hone hinside
  refine ⟨hreached.step hflow, ?_⟩
  rw [hafter, hdepth.steps p _ i hreached hat hflow, if_neg, trueDepthAfter_eq]
  · exact Instruction.isCall_eq_false_of_isModelled hmodelled
  · exact Instruction.flow_ne_leave hmodelled

/-- **A run keeps the invariant.**  It starts with an empty stack, at a place to which depth zero is
assigned. -/
theorem Arrives.follows (hb : e.body.ArenaValid) (hcode : e.body.Modelled)
    (hdepth : e.body.ConsistentDepths calls depth) (h : e.Arrives locals p frame) :
    e.Follows depth p frame := by
  induction h with
  | start =>
      refine ⟨fun hinside => ?_, Nat.zero_le _⟩
      have hne : e.body.order ≠ [] := List.ne_nil_of_length_pos hinside
      exact ⟨IsEntry.reached (Or.inl ⟨rfl, hne⟩), (hdepth.start hne).symm⟩
  | step _ hstep ih => exact ih.step hb hcode hdepth hstep

/-- **No arrival is in front of an instruction that finds too few values.**  The depth there is
assigned, and it is enough for what the instruction takes. -/
theorem Arrives.not_underflow (hb : e.body.ArenaValid) (hcode : e.body.Modelled)
    (hdepth : e.body.ConsistentDepths calls depth) (h : e.Arrives locals p frame) :
    e.stepAt p frame ≠ .error (.stackUnderflow id) := by
  intro hstep
  cases hid : e.body.idAt? p with
  | none => simp [stepAt, hid] at hstep
  | some other =>
      obtain ⟨i, hi⟩ := hb.exists_get? (mem_order_iff.mpr ⟨p, hid⟩)
      have hat : e.body.at? p = some i := at?_eq_some_iff.mpr ⟨other, hid, hi⟩
      obtain ⟨hreached, hlength⟩ := (h.follows hb hcode hdepth).inside (idAt?_lt hid)
      have henough := hdepth.no_underflow p i hreached hat
      rw [trueEffect,
        Instruction.isCall_eq_false_of_isModelled (hcode.modelled_or_ret hat)] at henough
      rw [stepAt_eq hid hi] at hstep
      cases hone : CilRepair.step e.memory other i frame with
      | ok moved => simp [hone, Except.map] at hstep
      | error reason =>
          obtain rfl : reason = .stackUnderflow id := by simpa [hone, Except.map] using hstep
          rcases fault_of_step hone with ⟨index, hindex⟩ | ⟨-, hfew⟩
          · exact absurd hindex (by simp)
          · rw [hlength] at hfew
            exact absurd henough (Nat.not_le.mpr hfew)

/-- An answer that reports too few values is that of a run that found too few, since no other part
of a query gives that reason. -/
theorem runFrom_of_answer_underflow {query : Query}
    (h : e.answer target query = .unknown (.stackUnderflow id)) :
    ∃ locals, e.runFrom target e.budget 0 ⟨[], locals⟩ = .error (.stackUnderflow id) := by
  refine ⟨e.startLocals target query, ?_⟩
  by_cases hquery : query.InRange e.body
  · rw [answer_eq hquery, run] at h
    split at h
    · cases hrun : e.runFrom target e.budget 0 ⟨[], e.startLocals target query⟩ with
      | error reason => simpa [hrun, bind, Except.bind, Evaluated.ofExcept] using h
      | ok final =>
          have hread : query.read final ≠ .error (.stackUnderflow id) := by
            cases query <;> rw [Query.read] <;> split <;> simp
          cases hvalue : query.read final <;>
            simp_all [bind, Except.bind, Evaluated.ofExcept]
    · simp [bind, Except.bind, Evaluated.ofExcept] at h
  · obtain ⟨index, hindex⟩ := answer_of_not_inRange target hquery
    exact absurd ((hindex e.budget).symm.trans h) (by simp)

/-- **The stack of every run is as deep as the table of stack effects says.**  Let a body be made of
modelled instructions with live destinations, and let depths be assigned to it that are consistent
by the table: none at the start, at each step of control the depth behind the instruction, and never
fewer values than an instruction takes.  Then a run from any locals arrives at every place with as
many values as are assigned to it, and so it does at the target where it ends.  No query reports a
stack underflow.  And the declared maximum of the stack covers the stack of every run, before and
behind each instruction, if it is below the greatest number that the header can hold. -/
theorem stack_follows_depths (e : Evaluator) (hb : e.body.ArenaValid) (hcode : e.body.Modelled)
    (calls : Nat → Nat × Nat) (depth : Nat → Nat)
    (hdepth : e.body.ConsistentDepths calls depth) :
    (∀ locals p frame, e.Arrives locals p frame → p < e.body.length →
      frame.stack.length = depth p) ∧
    (∀ target locals final, e.run target locals = .ok final →
      ∃ p, e.body.idAt? p = some target ∧ final.stack.length = depth p) ∧
    (∀ target query id, e.answer target query ≠ .unknown (.stackUnderflow id)) ∧
    (e.body.computeMaxStack < 65535 → ∀ locals p frame, e.Arrives locals p frame →
      frame.stack.length ≤ e.body.computeMaxStack.toNat) := by
  refine ⟨fun locals p frame harrives hinside => ?_, fun target locals final hrun => ?_,
    fun target query id hanswer => ?_, fun hsmall locals p frame harrives => ?_⟩
  · exact ((harrives.follows hb hcode hdepth).inside hinside).2
  · rw [run] at hrun
    split at hrun
    · obtain ⟨p, hp, harrives⟩ := Arrives.start.of_runFrom hrun
      exact ⟨p, hp, ((harrives.follows hb hcode hdepth).inside (idAt?_lt hp)).2⟩
    · exact absurd hrun (by simp)
  · obtain ⟨locals, hrun⟩ := runFrom_of_answer_underflow hanswer
    obtain ⟨q, next, harrives, hstep⟩ := Arrives.start.fault_of_runFrom hrun
    exact harrives.not_underflow hb hcode hdepth hstep
  · have hcovered := (harrives.follows hb hcode hdepth).covered
    have hsmall : e.body.computeMaxStack.toNat < 65535 := UInt16.lt_iff_toNat_lt.mp hsmall
    rw [toNat_computeMaxStack] at hsmall ⊢
    omega

/-- A loop that counts a local down from three.  The sum of its values stays on the stack, below the
values of a round. -/
def summing : Evaluator where
  body :=
    { MethodBody.empty with
      arena := [.shortestLiteral 3, .of (.stloc .short) (.slot 0), .shortestLiteral 0,
        .of (.ldloc .short) (.slot 0), .bare (.binary .add), .of (.ldloc .short) (.slot 0),
        .shortestLiteral 1, .bare (.binary .sub), .bare .dup, .of (.stloc .short) (.slot 0),
        .shortestLiteral 0, .of (.branch .bneUn .short) (.target ⟨3⟩), .bare .pop, .ret]
      order := [⟨0⟩, ⟨1⟩, ⟨2⟩, ⟨3⟩, ⟨4⟩, ⟨5⟩, ⟨6⟩, ⟨7⟩, ⟨8⟩, ⟨9⟩, ⟨10⟩, ⟨11⟩, ⟨12⟩, ⟨13⟩]
      locals := [⟨none, .i4⟩] }
  memory := []
  budget := defaultBudget
  offsetShift := none

/-- The depths in `summing`, by place. -/
def summingDepth (p : Nat) : Nat := [0, 1, 0, 1, 2, 1, 2, 3, 2, 3, 2, 3, 1, 0].getD p 0

/-- Every round starts with the sum alone, and three values are the most.  The loop goes back to a
place with one depth, whatever the number of rounds. -/
theorem summing_follows :
    summing.body.computeMaxStack = 3 ∧
    (∀ target query id, summing.answer target query ≠ .unknown (.stackUnderflow id)) ∧
    ∀ locals p frame, summing.Arrives locals p frame →
      (p = 3 → frame.stack.length = 1) ∧ frame.stack.length ≤ 3 := by
  have hunderflow : ∀ p < 14, ∀ i ∈ summing.body.at? p,
      (trueEffect (fun _ => (0, 0)) p i).1 ≤ summingDepth p := by decide
  have hsteps : ∀ p < 14, ∀ q < 14, summing.body.FlowsTo p q → ∀ i ∈ summing.body.at? p,
      summingDepth q = if i.opcode.flow = .leave then 0 else
        trueDepthAfter (fun _ => (0, 0)) summingDepth p i := by decide
  have hdepth : summing.body.ConsistentDepths (fun _ => (0, 0)) summingDepth :=
    { start := fun _ => rfl
      handlers := fun h hh => absurd hh List.not_mem_nil
      filters := fun h hh => absurd hh List.not_mem_nil
      no_underflow := fun p i _ hi => hunderflow p (at?_lt hi) i hi
      steps := fun p q i _ hi hflow => hsteps p (at?_lt hi) q hflow.lt hflow i hi }
  have hinstructions : ∀ p < 14, ∀ i ∈ summing.body.at? p,
      i.isModelled = true ∨ i.opcode = .ret ∧ p + 1 = summing.body.length := by decide
  have hlive : ∀ p < 14, ∀ i ∈ summing.body.at? p, i.isBranch = true →
      ∀ id ∈ i.branchTarget?, id ∈ summing.body.order := by decide
  have hcode : summing.body.Modelled :=
    ⟨fun p i hi => hinstructions p (at?_lt hi) i hi, fun p i hi => hlive p (at?_lt hi) i hi⟩
  have hmax : summing.body.computeMaxStack = 3 := by cbv
  obtain ⟨hdepths, -, hnone, hcovered⟩ :=
    stack_follows_depths summing (by decide) hcode (fun _ => (0, 0)) summingDepth hdepth
  rw [hmax] at hcovered
  refine ⟨hmax, hnone, fun locals p frame harrives => ⟨?_, hcovered (by decide) _ _ _ harrives⟩⟩
  rintro rfl
  exact hdepths locals 3 frame harrives (by decide)

end Evaluator

end CilRepair
