import CilRepair.Proofs.ControlFlow
import CilRepair.Proofs.RepairInvariants
import CilRepair.Proofs.Runs

/-!
# Targets of known answers

An answer of the evaluator is known only if a run arrived at the target, and a run moves from place
to place.  In a body that needs no repair its moves are steps of control, with one difference to the
structure of the body: the evaluator models `br` alone among the terminal instructions, and runs on
behind a `ret`, a `throw` or a `leave` as behind any instruction that it does not know.

* `Instruction.jumpsAway` — the instructions behind which the evaluator does not go on.
* `MethodBody.RunsTo` — one step of control as the evaluator takes it; `MethodBody.runsTo_iff`
  compares it with the structure.
* `Evaluator.runsTo_of_step` — every step of a run is one of those.
* `MethodBody.flows_or_overruns` — a path of such steps is a path of the structure, or runs over a
  terminal instruction that the structure leads to.
* `Evaluator.known_only_at_reached` — a target with a known answer is at the end of such a path.
* `Evaluator.overrunReturn_known` — behind a `ret` an answer can be known where control never gets.

## Design notes

Two relations on places are compared, and both are instances of `Leads`, which takes a test for the
instructions that fall through.  The structure of a body uses `isTerminal` and the evaluator
`jumpsAway`; all that is proved about the difference is proved about these two tests.

Repair gives the references.  In a body where it finds nothing to do they are live, and then every
jump of the evaluator goes to a place that the structure knows about.

That the evaluator goes on behind a `ret` is how it treats every instruction that it does not model:
it does nothing.  `overrunReturn_known` is the smallest case of it, and the reason why the main
theorem has its last clause.
-/

namespace CilRepair

/-- **The evaluator does not go on behind this instruction:** a `br` with a destination. -/
def Instruction.jumpsAway (i : Instruction) : Bool :=
  match i.opcode, i.operand with
  | .branch .br _, .target _ => true
  | _, _ => false

/-- Said by the parts of the instruction.  A `br` without a destination falls through. -/
theorem Instruction.jumpsAway_iff {i : Instruction} :
    i.jumpsAway = true ↔ (∃ form, i.opcode = .branch .br form) ∧ ∃ id, i.operand = .target id := by
  rcases i with ⟨op, operand, offset⟩
  cases op with
  | branch kind form => cases kind <;> cases operand <;> simp [jumpsAway]
  | _ => simp [jumpsAway]

/-- Whatever jumps away is terminal, so the evaluator takes every step of the structure. -/
theorem Instruction.isTerminal_of_jumpsAway {i : Instruction} (h : i.jumpsAway = true) :
    i.isTerminal = true := by
  obtain ⟨⟨form, hop⟩, -⟩ := jumpsAway_iff.mp h
  rw [isTerminal, hop]
  rfl

namespace MethodBody

variable {b : MethodBody} {p q start : Nat}

/-- **One step of control as the evaluator takes it:** only a `br` with a destination does not fall
through. -/
def RunsTo (b : MethodBody) : Nat → Nat → Prop := b.Leads fun i => !i.jumpsAway

/-- **What the evaluator adds to the structure** are the steps behind terminal instructions that it
does not know.  They are steps to the next place, and there has to be one. -/
theorem runsTo_iff :
    b.RunsTo p q ↔ b.FlowsTo p q ∨ ∃ i, b.at? p = some i ∧ i.isTerminal = true ∧
      i.jumpsAway = false ∧ q < b.length ∧ q = p + 1 := by
  constructor
  · rintro ⟨i, hi, hq, htarget | ⟨hfalls, hnext⟩⟩
    · exact Or.inl ⟨i, hi, hq, Or.inl htarget⟩
    · cases hterminal : i.isTerminal with
      | false => exact Or.inl ⟨i, hi, hq, Or.inr ⟨by simp [hterminal], hnext⟩⟩
      | true => exact Or.inr ⟨i, hi, hterminal, by simpa using hfalls, hq, hnext⟩
  · rintro (⟨i, hi, hq, htarget | ⟨hfalls, hnext⟩⟩ | ⟨i, hi, -, hstays, hq, hnext⟩)
    · exact ⟨i, hi, hq, Or.inl htarget⟩
    · refine ⟨i, hi, hq, Or.inr ⟨?_, hnext⟩⟩
      cases hjumps : i.jumpsAway with
      | false => simp [hjumps]
      | true => simp [Instruction.isTerminal_of_jumpsAway hjumps] at hfalls
    · exact ⟨i, hi, hq, Or.inr ⟨by simp [hstays], hnext⟩⟩

/-- **A path of the evaluator is a path of the structure,** or there is a first terminal instruction
that it runs over.  By induction on the path; once it has left the structure nothing more is claimed
but where. -/
theorem flows_or_overruns (h : Relation.ReflTransGen b.RunsTo start q) :
    Relation.ReflTransGen b.FlowsTo start q ∨
      ∃ p i, Relation.ReflTransGen b.FlowsTo start p ∧ b.at? p = some i ∧ i.isTerminal = true ∧
        i.jumpsAway = false ∧ Relation.ReflTransGen b.RunsTo (p + 1) q := by
  induction h with
  | refl => exact Or.inl .refl
  | tail _ hlast ih =>
      rcases ih with hflows | ⟨p, i, hflows, hi, hterminal, hjumps, hrest⟩
      · rcases runsTo_iff.mp hlast with hstep | ⟨i, hi, hterminal, hjumps, -, rfl⟩
        · exact Or.inl (hflows.tail hstep)
        · exact Or.inr ⟨_, i, hflows, hi, hterminal, hjumps, .refl⟩
      · exact Or.inr ⟨p, i, hflows, hi, hterminal, hjumps, hrest.tail hlast⟩

end MethodBody

namespace Evaluator

open MethodBody

variable {e : Evaluator} {target id : InstrId} {i : Instruction} {frame next : Frame}
  {jump : Option InstrId} {p : Nat}

/-- A `br` with a destination jumps, so a step without a jump is none of it. -/
theorem jumpsAway_eq_false_of_step (h : step e.memory id i frame = .ok (next, none)) :
    i.jumpsAway = false := by
  by_contra hjumps
  rw [Bool.not_eq_false, Instruction.jumpsAway_iff] at hjumps
  obtain ⟨⟨form, hop⟩, destination, hoperand⟩ := hjumps
  rcases i with ⟨op, operand, offset⟩
  cases hop
  cases hoperand
  simp [step, Instruction.literal?, Instruction.branchTarget?] at h

/-- **Every step of a run is a step of control,** in a body whose references are live. -/
theorem runsTo_of_step (hb : e.body.ArenaValid) (hresolved : e.body.Resolved)
    (hi : e.body.at? p = some i) (hstep : step e.memory id i frame = .ok (next, jump))
    (hinside : e.nextPosition p jump < e.body.length) :
    e.body.RunsTo p (e.nextPosition p jump) := by
  refine ⟨i, hi, hinside, ?_⟩
  cases jump with
  | none => exact Or.inr ⟨by simpa using jumpsAway_eq_false_of_step hstep, rfl⟩
  | some destination =>
      have hmem := mem_targets_of_step hstep
      obtain ⟨q, hq⟩ := mem_order_iff.mp ((hresolved.settled p i hi).targets_live _ hmem)
      refine Or.inl ⟨destination, hmem, ?_⟩
      rw [nextPosition, Option.bind_some, (lastPosition?_eq_some_iff hb).mpr hq,
        Option.getD_some, hq]

/-- **A run that arrives at its target follows control** from the place where it starts.  By
induction on the budget. -/
theorem runs_of_runFrom (hb : e.body.ArenaValid) (hresolved : e.body.Resolved) {n : Nat}
    {final : Frame} (h : e.runFrom target n p frame = .ok final) :
    ∃ q, e.body.idAt? q = some target ∧ Relation.ReflTransGen e.body.RunsTo p q := by
  -- By induction on the budget.  A run that arrives is inside the body before every step.
  induction n generalizing p frame with
  | zero => exact absurd h runFrom_zero_ne_ok
  | succ n ih =>
      rcases runFrom_eq_ok_cases h with ⟨htarget, -⟩ | ⟨-, place, next, hstep, hrest⟩
      · exact ⟨p, htarget, .refl⟩
      · obtain ⟨q, hq, hpath⟩ := ih hrest
        obtain ⟨id, i, jump, hid, hi, hone, rfl⟩ := exists_of_stepAt hstep
        exact ⟨q, hq, hpath.head (runsTo_of_step hb hresolved
          (at?_eq_some_iff.mpr ⟨id, hid, hi⟩) hone (lt_length_of_runFrom hrest))⟩

/-- **Known answers are for targets that control reaches.**  In a body where repair finds nothing to
do, the target of a known answer is reached from the first instruction by steps of control as the
evaluator takes them: to the live targets of an instruction and, unless it is a `br` with a
destination, to the next one.  If terminal instructions are not to fall through, the target is
reached as well, or else one of them is, other than a `br` with a destination, and the run went on
behind it. -/
theorem known_only_at_reached (e : Evaluator) (hb : e.body.ArenaValid)
    (hrepaired : e.body.repair.2.changed = false) (target : InstrId)
    (hknown : (∃ v, e.peekStack target = .known v) ∨
      ∃ index v, e.resolveLocal target index = .known v) :
    ∃ q, e.body.idAt? q = some target ∧ Relation.ReflTransGen e.body.RunsTo 0 q ∧
      (Relation.ReflTransGen e.body.FlowsTo 0 q ∨
        ∃ p i, Relation.ReflTransGen e.body.FlowsTo 0 p ∧ e.body.at? p = some i ∧
          i.isTerminal = true ∧ i.jumpsAway = false ∧
          Relation.ReflTransGen e.body.RunsTo (p + 1) q) := by
  have hintact : e.body.Intact :=
    (repair_report_iff hb).mp (RepairReport.changed_eq_false_iff.mp hrepaired)
  obtain ⟨locals, final, hrun⟩ : ∃ locals final,
      e.runFrom target e.budget 0 ⟨[], locals⟩ = .ok final := by
    rcases hknown with ⟨v, hv⟩ | ⟨index, v, hv⟩
    · obtain ⟨-, final, -, hrun, -⟩ := peekStack_eq_known_iff.mp hv
      exact ⟨_, final, hrun⟩
    · obtain ⟨-, -, final, hrun, -⟩ := resolveLocal_eq_known_iff.mp hv
      exact ⟨_, final, hrun⟩
  obtain ⟨q, hq, hpath⟩ := runs_of_runFrom hb (intact_iff.mp hintact).1 hrun
  exact ⟨q, hq, hpath, flows_or_overruns hpath⟩

/-- A stored constant, a jump over a `ret`, and a test of the constant in front of a `throw`. -/
def guardedLoad : Evaluator where
  body :=
    { arena := [⟨.ldcI4 .short, .immediate (.int8 1), 0⟩, ⟨.stloc .short, .slot 0, 2⟩,
        ⟨.branch .br .short, .target ⟨4⟩, 4⟩, ⟨.ret, .absent, 6⟩, ⟨.ldloc .short, .slot 0, 7⟩,
        ⟨.ldcI4 .short, .immediate (.int8 1), 9⟩, ⟨.branch .beq .short, .target ⟨8⟩, 11⟩,
        ⟨.throw, .absent, 13⟩, ⟨.ret, .absent, 14⟩]
      order := [⟨0⟩, ⟨1⟩, ⟨2⟩, ⟨3⟩, ⟨4⟩, ⟨5⟩, ⟨6⟩, ⟨7⟩, ⟨8⟩]
      locals := [⟨none, .i4⟩]
      handlers := []
      maxStack := 8
      initLocals := true }
  memory := []
  budget := 100
  offsetShift := none

/-- The constant is known at the end, and control gets there past both traps: neither the `ret` nor
the `throw` is run over. -/
theorem guardedLoad_reached :
    guardedLoad.body.ArenaValid ∧ guardedLoad.body.repair.2.changed = false ∧
      guardedLoad.resolveLocal ⟨8⟩ 0 = .known 1 ∧
      ∃ q, guardedLoad.body.idAt? q = some ⟨8⟩ ∧
        Relation.ReflTransGen guardedLoad.body.RunsTo 0 q := by
  have hknown : guardedLoad.resolveLocal ⟨8⟩ 0 = .known 1 := by decide
  obtain ⟨q, hq, hpath, -⟩ := known_only_at_reached guardedLoad (by decide) (by decide) ⟨8⟩
    (Or.inr ⟨0, 1, hknown⟩)
  exact ⟨by decide, by decide, hknown, q, hq, hpath⟩

/-- A constant is pushed and returned, and two more instructions follow. -/
def overrunReturn : Evaluator where
  body :=
    { MethodBody.empty with
      arena := [⟨.ldcI4 .short, .immediate (.int8 7), 0⟩, ⟨.ret, .absent, 2⟩, ⟨.nop, .absent, 3⟩,
        ⟨.ret, .absent, 4⟩]
      order := [⟨0⟩, ⟨1⟩, ⟨2⟩, ⟨3⟩] }
  memory := []
  budget := defaultBudget
  offsetShift := some defaultOffsetShift

/-- **Behind a `ret` an answer can be known** although control does not get there, in a body where
repair finds nothing to do. -/
theorem overrunReturn_known :
    overrunReturn.body.ArenaValid ∧ overrunReturn.body.repair.2.changed = false ∧
      overrunReturn.peekStack ⟨2⟩ = .known 7 ∧
      ¬ ∃ q, overrunReturn.body.idAt? q = some ⟨2⟩ ∧
        Relation.ReflTransGen overrunReturn.body.FlowsTo 0 q := by
  have hknown : overrunReturn.peekStack ⟨2⟩ = .known 7 :=
    peekStack_eq_known_iff.mpr ⟨by decide, ⟨[7], []⟩, [], by rfl, rfl⟩
  -- Control gets from the first place to the second, and from there nowhere.
  have hstuck : ∀ p < 2, ∀ q < 4, overrunReturn.body.FlowsTo p q → q < 2 := by decide
  have hreach : ∀ q, Relation.ReflTransGen overrunReturn.body.FlowsTo 0 q → q < 2 := by
    intro q hpath
    induction hpath with
    | refl => decide
    | tail _ hlast ih => exact hstuck _ ih _ hlast.lt hlast
  refine ⟨by decide, by decide, hknown, ?_⟩
  rintro ⟨q, hq, hpath⟩
  have hplace : ∀ q < 2, overrunReturn.body.idAt? q ≠ some ⟨2⟩ := by decide
  exact hplace q (hreach q hpath) hq

end Evaluator

end CilRepair
