import CilRepair.Proofs.Evaluation
import CilRepair.Proofs.Thinning

/-!
# Simulation of runs

A pass that shortens a body makes its runs shorter as well: some steps of the old run are steps of
the new one, and the others disappear.  What such a pass has to show is about one step, and what it
gets is about every run that ends within its budget, whatever it ends with.

* `Evaluator.stepAt` — one step of a run, from a place and a frame to the next.
* `Evaluator.runFrom_eq_ok_cases` — a run that reaches its target, by its first step.
* `Evaluator.runFrom_stable` — more budget does not change a run that ended.
* `Evaluator.Progress`, `Evaluator.Simulation` — the step condition: both runs stop, both move, or
  the old one moves alone.
* `Evaluator.Simulation.peekStack_eq` — a simulated body gives the same answers.
* `Evaluator.nextPosition_thinned` — in a thinned body a run goes on at the rank of the next place.

Unlike `StepsMatch`, which carries known answers over to a body with further locals, a simulation
carries over every answer, the reasons for unknown ones included.  Only a run that is cut off by its
budget is not followed, because the shorter run may get further.

## Design notes

`Progress` is an inductive with one constructor for each thing that can happen, so a pass that is to
be verified gives its cases and the induction over the run is done here, once.  The relation between
states is a parameter; removal of padding relates places by rank, and a fold relates frames as well
while the triple is under way.

The first run never moves alone at its target.  Otherwise the second one could be past it when the
first arrives.
-/

namespace CilRepair

namespace Evaluator

variable {e e' : Evaluator} {target : InstrId} {p p' : Nat} {frame frame' : Frame}

/-! ### One step of a run -/

/-- **One step of a run:** the next place, and the frame with which the run arrives there. -/
def stepAt (e : Evaluator) (p : Nat) (frame : Frame) : Except UnknownReason (Nat × Frame) :=
  match e.body.idAt? p with
  | none => .error .notReached
  | some id =>
    match e.body.get? id with
    | none => .error .notReached
    | some i => (step e.memory id i frame).map fun (next, jump) => (e.nextPosition p jump, next)

/-- Behind the end there is no step, and the reason is that the target was not reached. -/
theorem stepAt_of_idAt?_eq_none (hid : e.body.idAt? p = none) (frame : Frame) :
    e.stepAt p frame = .error .notReached := by
  rw [stepAt, hid]

theorem stepAt_eq {id : InstrId} {i : Instruction} (hid : e.body.idAt? p = some id)
    (hi : e.body.get? id = some i) (frame : Frame) :
    e.stepAt p frame =
      (step e.memory id i frame).map fun (next, jump) => (e.nextPosition p jump, next) := by
  simp only [stepAt, hid, hi]

/-- A step of a run is one of an instruction.  The place has an identity with something in its slot,
and the next place is where its jump leads. -/
theorem exists_of_stepAt {q : Nat} {next : Frame} (h : e.stepAt p frame = .ok (q, next)) :
    ∃ id i jump, e.body.idAt? p = some id ∧ e.body.get? id = some i ∧
      step e.memory id i frame = .ok (next, jump) ∧ q = e.nextPosition p jump := by
  cases hid : e.body.idAt? p with
  | none => simp [stepAt_of_idAt?_eq_none hid] at h
  | some id =>
      cases hi : e.body.get? id with
      | none => simp [stepAt, hid, hi] at h
      | some i =>
          rw [stepAt_eq hid hi] at h
          cases hstep : step e.memory id i frame with
          | error reason => simp [hstep, Except.map] at h
          | ok result =>
              obtain ⟨other, jump⟩ := result
              obtain ⟨rfl, rfl⟩ : e.nextPosition p jump = q ∧ other = next := by
                simpa [hstep, Except.map] using h
              exact ⟨id, i, jump, rfl, hi, hstep, rfl⟩

/-- **A run is steps,** up to the target.  The evaluator looks for the target before each step, so
that the instruction there is not run. -/
theorem runFrom_succ_eq (e : Evaluator) (target : InstrId) (n p : Nat) (frame : Frame) :
    e.runFrom target (n + 1) p frame =
      if e.body.idAt? p = some target then .ok frame
      else match e.stepAt p frame with
        | .error reason => .error reason
        | .ok (q, next) => e.runFrom target n q next := by
  cases hid : e.body.idAt? p with
  | none => simp [runFrom_of_idAt?_eq_none hid, stepAt_of_idAt?_eq_none hid]
  | some id =>
      rw [runFrom_succ hid]
      by_cases htarget : id = target
      · rw [if_pos htarget, if_pos (congrArg some htarget)]
      · rw [if_neg htarget, if_neg (fun h => htarget (Option.some.inj h))]
        cases hi : e.body.get? id with
        | none => simp only [stepAt, hid, hi]
        | some i =>
            rw [stepAt_eq hid hi]
            dsimp only
            cases step e.memory id i frame <;> rfl

/-- Without a budget no run arrives, not even where it already is. -/
theorem runFrom_zero_ne_ok {final : Frame} : e.runFrom target 0 p frame ≠ .ok final := by
  cases hid : e.body.idAt? p with
  | none => simp [runFrom_of_idAt?_eq_none hid]
  | some id => simp [runFrom_zero hid]

/-- **A run that reaches its target** is there already, or takes a step and reaches it then.  This
is the case analysis of every induction on runs. -/
theorem runFrom_eq_ok_cases {n : Nat} {final : Frame}
    (h : e.runFrom target (n + 1) p frame = .ok final) :
    e.body.idAt? p = some target ∧ final = frame ∨
      e.body.idAt? p ≠ some target ∧ ∃ q next, e.stepAt p frame = .ok (q, next) ∧
        e.runFrom target n q next = .ok final := by
  rw [runFrom_succ_eq] at h
  by_cases htarget : e.body.idAt? p = some target
  · rw [if_pos htarget] at h
    exact Or.inl ⟨htarget, (Except.ok.inj h).symm⟩
  · rw [if_neg htarget] at h
    cases hstep : e.stepAt p frame with
    | error reason => simp [hstep] at h
    | ok result => exact Or.inr ⟨htarget, result.1, result.2, rfl, by simpa [hstep] using h⟩

/-- **More budget does not change a run that ended.**  A run that is cut off says so by the budget
of the query, which no instruction does. -/
theorem runFrom_stable {n : Nat}
    (h : e.runFrom target n p frame ≠ .error (.budgetExhausted e.budget)) :
    e.runFrom target (n + 1) p frame = e.runFrom target n p frame := by
  induction n generalizing p frame with
  | zero =>
      -- Without budget only a run that has left the body is over.
      cases hid : e.body.idAt? p with
      | none => rw [runFrom_of_idAt?_eq_none hid, runFrom_of_idAt?_eq_none hid]
      | some id => exact absurd (runFrom_zero hid frame) h
  | succ n ih =>
      rw [runFrom_succ_eq] at h
      rw [runFrom_succ_eq, runFrom_succ_eq e target n]
      by_cases htarget : e.body.idAt? p = some target
      · rw [if_pos htarget, if_pos htarget]
      · rw [if_neg htarget] at h ⊢
        rw [if_neg htarget]
        cases hstep : e.stepAt p frame with
        | error reason => rfl
        | ok result =>
            simp only [hstep] at h
            exact ih h

/-! ### Simulation -/

/-- **What becomes of two related states in a step.**  Either both runs are at the same identity
with the same frame, and then they stop for the same reason or move on to related states; or the
first run, not yet at its target, moves on alone and is still related to the second. -/
inductive Progress (e e' : Evaluator) (target : InstrId) (R : Nat → Frame → Nat → Frame → Prop)
    (p : Nat) (frame : Frame) (p' : Nat) (frame' : Frame) : Prop
  | stop (reason : UnknownReason) (hid : e'.body.idAt? p' = e.body.idAt? p)
      (hframe : frame' = frame) (hstep : e.stepAt p frame = .error reason)
      (hstep' : e'.stepAt p' frame' = .error reason)
  | both (q : Nat) (next : Frame) (q' : Nat) (next' : Frame)
      (hid : e'.body.idAt? p' = e.body.idAt? p) (hframe : frame' = frame)
      (hstep : e.stepAt p frame = .ok (q, next)) (hstep' : e'.stepAt p' frame' = .ok (q', next'))
      (hnext : R q next q' next')
  | alone (q : Nat) (next : Frame) (id : InstrId) (hid : e.body.idAt? p = some id)
      (htarget : id ≠ target) (hstep : e.stepAt p frame = .ok (q, next))
      (hnext : R q next p' frame')

/-- **One body simulates another** on the way to a target: related states stay related. -/
structure Simulation (e e' : Evaluator) (target : InstrId)
    (R : Nat → Frame → Nat → Frame → Prop) : Prop where
  budget : e'.budget = e.budget
  progress : ∀ p frame p' frame', R p frame p' frame' → Progress e e' target R p frame p' frame'

variable {R : Nat → Frame → Nat → Frame → Prop}

/-- **A run that ends is followed to its end,** with no more budget.  The induction is on the budget
of the first run; where that run moves alone the second has budget to spare, which `runFrom_stable`
lets it keep. -/
theorem Simulation.runFrom_eq (hsim : Simulation e e' target R) {n : Nat}
    (hrel : R p frame p' frame')
    (h : e.runFrom target n p frame ≠ .error (.budgetExhausted e.budget)) :
    e'.runFrom target n p' frame' = e.runFrom target n p frame := by
  -- By induction on the budget.  A step that the first run makes alone leaves the second with a
  -- budget to spare, which it does not need.
  induction n generalizing p frame p' frame' with
  | zero =>
      cases hid : e.body.idAt? p with
      | some id => exact absurd (runFrom_zero hid frame) h
      | none =>
          have hend : e'.body.idAt? p' = none := by
            cases hsim.progress p frame p' frame' hrel with
            | stop _ hsame => rw [hsame, hid]
            | both _ _ _ _ hsame => rw [hsame, hid]
            | alone _ _ _ hsome => simp [hid] at hsome
          rw [runFrom_of_idAt?_eq_none hid, runFrom_of_idAt?_eq_none hend]
  | succ n ih =>
      rw [runFrom_succ_eq] at h
      cases hsim.progress p frame p' frame' hrel with
      | stop reason hid hframe hstep hstep' =>
          rw [runFrom_succ_eq, runFrom_succ_eq, hid, hstep, hstep', hframe]
      | both q next q' next' hid hframe hstep hstep' hnext =>
          rw [runFrom_succ_eq, runFrom_succ_eq, hid, hstep, hstep', hframe]
          by_cases htarget : e.body.idAt? p = some target
          · rw [if_pos htarget, if_pos htarget]
          · rw [if_neg htarget] at h ⊢
            rw [if_neg htarget]
            simp only [hstep] at h
            exact ih hnext h
      | alone q next id hid htarget hstep hnext =>
          have hne : e.body.idAt? p ≠ some target := by
            rw [hid]
            exact fun heq => htarget (Option.some.inj heq)
          rw [if_neg hne] at h
          simp only [hstep] at h
          have hrest := ih hnext h
          have hstable : e'.runFrom target (n + 1) p' frame' = e'.runFrom target n p' frame' := by
            apply runFrom_stable
            rw [hrest, hsim.budget]
            exact h
          rw [hstable, hrest, runFrom_succ_eq, if_neg hne, hstep]

/-- **A simulated body gives the same answers,** if the run on the original is not cut off. -/
theorem Simulation.peekStack_eq (hsim : Simulation e e' target R)
    (hstart : R 0 ⟨[], e.zeroLocals⟩ 0 ⟨[], e'.zeroLocals⟩) (hlive : target ∈ e.body.order)
    (hlive' : target ∈ e'.body.order)
    (h : e.peekStack target ≠ .unknown (.budgetExhausted e.budget)) :
    e'.peekStack target = e.peekStack target := by
  have hrun : e.runFrom target e.budget 0 ⟨[], e.zeroLocals⟩ ≠
      .error (.budgetExhausted e.budget) := by
    intro hcut
    rw [peekStack, run, if_pos (MethodBody.isLive_iff.mpr hlive), hcut] at h
    exact h rfl
  have hsame := hsim.runFrom_eq hstart hrun
  rw [peekStack, peekStack, run, run, if_pos (MethodBody.isLive_iff.mpr hlive),
    if_pos (MethodBody.isLive_iff.mpr hlive'), hsim.budget, hsame]

/-! ### Thinned bodies -/

/-- **In a thinned body a run goes on at the rank of the next place,** if its jumps arrive at the
ranks of the places where they arrived. -/
theorem nextPosition_thinned {c : MethodBody} {keep : InstrId → Bool} {id : InstrId}
    (hid : e.body.idAt? p = some id) (hkeep : keep id = true) {jump jump' : Option InstrId}
    (hjump : jump'.bind c.lastPosition? =
      (jump.bind e.body.lastPosition?).map (e.body.rank keep)) :
    (e.withBody c).nextPosition (e.body.rank keep p) jump' =
      e.body.rank keep (e.nextPosition p jump) := by
  rw [nextPosition, nextPosition, body_withBody, hjump]
  cases jump.bind e.body.lastPosition? with
  | some q => rfl
  | none => exact (MethodBody.rank_succ_of_keep hid hkeep).symm

end Evaluator

end CilRepair
