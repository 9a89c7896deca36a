import Mathlib.Data.ENat.Basic
import CilRepair.Proofs.Runs

/-!
# The budget of a query

A run asks in a fixed order before each step: has control left the body, is the budget spent, is the
target here.  What a run ends with therefore has a price, and the price does not depend on the
budget: to leave the body costs nothing, to arrive at the target or to fault costs one, and a step
costs one more than the run behind it.  A query with less than the price reports its budget, a query
with the price or more reports the end, and a run without an end has no price.

* `Query`, `Evaluator.answer` — the two queries as one; `Evaluator.answer_eq` says that a query is a
  run and a reading of its last frame.
* `Evaluator.Ends` — the ends of runs with their prices, without a budget.
* `Evaluator.Ends.runFrom_eq`, `Evaluator.exists_ends` — a run under a budget has the end whose
  price it can pay, and only such a run is not cut off.
* `Evaluator.budget_is_threshold` — hence the budget is a threshold for every answer.

## Design notes

`Ends` describes a run without a budget, as an inductive relation with the price of the run as an
index, so that what a run ends with is settled before any budget is chosen.  That a run under a
budget agrees with it is one induction in each direction.

The threshold is the price, and it is infinite if the run has no end.  `ℕ∞` makes the two cases one
statement, and keeps the theorem from having to say whether a run ends, which is not decidable in
general.

Answers that do not come from a run at all, for a target that is not live or a local that does not
exist, settle at zero.
-/

namespace CilRepair

/-! ### Faults -/

/-- **What an instruction faults for:** it names no local of the frame, or there are fewer values on
the stack than it takes.  In particular a fault is never a spent budget. -/
theorem fault_of_step {memory : Memory} {id : InstrId} {i : Instruction} {frame : Frame}
    {reason : UnknownReason} (h : step memory id i frame = .error reason) :
    (∃ index, reason = .localOutOfRange index) ∨
      reason = .stackUnderflow id ∧ frame.stack.length < i.opcode.stackEffect.1 := by
  have hslot : ∀ {reason}, checkedSlot i frame = .error reason →
      ∃ index, reason = .localOutOfRange index := by
    intro reason hslot
    rw [checkedSlot] at hslot
    split at hslot
    · exact ⟨_, (Except.error.inj hslot).symm⟩
    · split at hslot
      · exact absurd hslot (by simp)
      · exact ⟨_, (Except.error.inj hslot).symm⟩
  -- Literals do not fault.  The other opcodes are gone through, with the stack opened as far as
  -- they take.
  unfold step at h
  cases hliteral : i.literal? with
  | some value => simp [hliteral, proceed] at h
  | none =>
      simp only [hliteral] at h
      rcases frame with ⟨stack, locals⟩
      cases hop : i.opcode <;> simp only [hop] at h
      case ldloc | stloc =>
        cases hchecked : checkedSlot i ⟨stack, locals⟩ with
        | error other =>
            obtain rfl : other = reason := by simpa [hchecked, bind, Except.bind] using h
            exact Or.inl (hslot hchecked)
        | ok slot => cases stack <;> simp_all [bind, Except.bind, proceed, OpCode.stackEffect]
      case binary op =>
        rcases stack with _ | ⟨x, _ | ⟨y, rest⟩⟩ <;> cases op <;>
          simp_all [stepBinary, proceed, OpCode.stackEffect]
      case branch kind form =>
        rcases stack with _ | ⟨x, _ | ⟨y, rest⟩⟩ <;> cases kind <;>
          simp_all [stepCompare, proceed, OpCode.stackEffect]
      case dup | pop | ldindI4 => cases stack <;> simp_all [proceed, OpCode.stackEffect]
      all_goals simp [proceed] at h

/-! ### Queries -/

/-- **What a query asks for** at its target: the value on top of the stack, or that of a local. -/
inductive Query
  | top
  | slot (index : UInt16)

namespace Query

/-- The local is one of the body. -/
def InRange (b : MethodBody) : Query → Prop
  | top => True
  | slot index => index.toNat < b.locals.length

/-- What is read off the frame at the target. -/
def read : Query → Frame → Except UnknownReason Int32
  | top, frame =>
    match frame.stack with
    | value :: _ => .ok value
    | [] => .error .emptyStack
  | slot index, frame =>
    match frame.locals[index.toNat]? with
    | some value => .ok value
    | none => .error (.localOutOfRange index)

theorem read_ne_budgetExhausted (query : Query) (frame : Frame) (limit : Nat) :
    query.read frame ≠ .error (.budgetExhausted limit) := by
  cases query <;> rw [read] <;> split <;> simp

end Query

namespace Evaluator

variable {e : Evaluator} {target : InstrId} {p q cost n : Nat} {frame next : Frame}
  {result : Except UnknownReason Frame}

/-- The locals that a query starts from. -/
def startLocals (e : Evaluator) (target : InstrId) : Query → List Int32
  | .top => e.zeroLocals
  | .slot _ => e.seededLocals target

/-- **The answer to a query.** -/
def answer (e : Evaluator) (target : InstrId) : Query → Evaluated
  | .top => e.peekStack target
  | .slot index => e.resolveLocal target index

/-- **A query is a run and a reading of its last frame.**  The two queries differ in the locals that
they start from and in what they read. -/
theorem answer_eq {query : Query} (h : query.InRange e.body) :
    e.answer target query =
      .ofExcept (e.run target (e.startLocals target query) >>= query.read) := by
  cases query with
  | top => rfl
  | slot index => exact if_neg (Nat.not_le.mpr h)

/-! ### Ends of runs -/

/-- **The end of a run and its price.**  There is no budget in it. -/
inductive Ends (e : Evaluator) (target : InstrId) :
    Nat → Nat → Frame → Except UnknownReason Frame → Prop
  | outside {p : Nat} {frame : Frame} (hid : e.body.idAt? p = none) :
      Ends e target 0 p frame (.error .notReached)
  | arrival {p : Nat} {frame : Frame} (hid : e.body.idAt? p = some target) :
      Ends e target 1 p frame (.ok frame)
  | fault {p : Nat} {frame : Frame} {id : InstrId} {reason : UnknownReason}
      (hid : e.body.idAt? p = some id) (htarget : id ≠ target)
      (hstep : e.stepAt p frame = .error reason) : Ends e target 1 p frame (.error reason)
  | step {cost p q : Nat} {frame next : Frame} {result : Except UnknownReason Frame} {id : InstrId}
      (hid : e.body.idAt? p = some id) (htarget : id ≠ target)
      (hstep : e.stepAt p frame = .ok (q, next)) (hrest : Ends e target cost q next result) :
      Ends e target (cost + 1) p frame result

/-- The evaluator with another budget. -/
def withBudget (e : Evaluator) (budget : Nat) : Evaluator := { e with budget }

/-- A step does not look at the budget. -/
theorem stepAt_withBudget (e : Evaluator) (budget p : Nat) (frame : Frame) :
    (e.withBudget budget).stepAt p frame = e.stepAt p frame := rfl

/-- A query for a local that the body does not have is no run at all. -/
theorem answer_of_not_inRange (target : InstrId) {query : Query} (h : ¬ query.InRange e.body) :
    ∃ index, ∀ budget,
      (e.withBudget budget).answer target query = .unknown (.localOutOfRange index) := by
  cases query with
  | top => exact absurd trivial h
  | slot index => exact ⟨index, fun _ => if_pos (Nat.not_lt.mp h)⟩

theorem idAt?_ne_some {id : InstrId} (hid : e.body.idAt? p = some id) (htarget : id ≠ target) :
    e.body.idAt? p ≠ some target := by
  rw [hid]
  exact fun h => htarget (Option.some.inj h)

/-- **A run under a budget** has the end whose price it can pay.  By induction on the run without a
budget. -/
theorem Ends.runFrom_eq (h : e.Ends target cost p frame result) (budget n : Nat) :
    (e.withBudget budget).runFrom target n p frame =
      if n < cost then .error (.budgetExhausted budget) else result := by
  induction h generalizing n with
  | outside hid => exact runFrom_of_idAt?_eq_none (e := e.withBudget budget) hid n _
  | arrival hid =>
      cases n with
      | zero => exact runFrom_zero (e := e.withBudget budget) hid _
      | succ n =>
          rw [runFrom_succ_eq, if_neg (show ¬ n + 1 < 1 by omega)]
          exact if_pos hid
  | fault hid htarget hstep =>
      cases n with
      | zero => exact runFrom_zero (e := e.withBudget budget) hid _
      | succ n =>
          rw [runFrom_succ_eq, if_neg (show ¬ n + 1 < 1 by omega), stepAt_withBudget, hstep]
          exact if_neg (idAt?_ne_some hid htarget)
  | step hid htarget hstep _ ih =>
      cases n with
      | zero => exact runFrom_zero (e := e.withBudget budget) hid _
      | succ n =>
          simp only [runFrom_succ_eq, stepAt_withBudget, hstep, ih, Nat.add_lt_add_iff_right]
          exact if_neg (idAt?_ne_some hid htarget)

/-- **A run that is not cut off has an end,** at a price within its budget.  By induction on the
budget. -/
theorem exists_ends {budget : Nat}
    (h : (e.withBudget budget).runFrom target n p frame ≠ .error (.budgetExhausted budget)) :
    ∃ cost result, cost ≤ n ∧ e.Ends target cost p frame result := by
  induction n generalizing p frame with
  | zero =>
      cases hid : e.body.idAt? p with
      | none => exact ⟨0, _, le_refl _, .outside hid⟩
      | some id => exact absurd (runFrom_zero (e := e.withBudget budget) hid frame) h
  | succ n ih =>
      cases hid : e.body.idAt? p with
      | none => exact ⟨0, _, Nat.zero_le _, .outside hid⟩
      | some id =>
          by_cases htarget : id = target
          · exact ⟨1, _, Nat.le_add_left 1 n, .arrival (htarget ▸ hid)⟩
          · cases hstep : e.stepAt p frame with
            | error reason => exact ⟨1, _, Nat.le_add_left 1 n, .fault hid htarget hstep⟩
            | ok moved =>
                have hmoved : (e.withBudget budget).runFrom target (n + 1) p frame =
                    (e.withBudget budget).runFrom target n moved.1 moved.2 := by
                  simp only [runFrom_succ_eq, stepAt_withBudget, hstep]
                  exact if_neg (idAt?_ne_some hid htarget)
                rw [hmoved] at h
                obtain ⟨cost, result, hle, hends⟩ := ih h
                exact ⟨cost + 1, result, Nat.succ_le_succ hle, .step hid htarget hstep hends⟩

/-- **What a run ends with is no spent budget.**  By induction on the run.  No instruction reports
one; only the loop around them does. -/
theorem Ends.ne_budgetExhausted (h : e.Ends target cost p frame result) (limit : Nat) :
    result ≠ .error (.budgetExhausted limit) := by
  induction h with
  | outside => simp
  | arrival => simp
  | @fault p frame id reason hid htarget hstep =>
      intro heq
      obtain rfl : reason = .budgetExhausted limit := Except.error.inj heq
      cases hi : e.body.get? id with
      | none => simp [stepAt, hid, hi] at hstep
      | some i =>
          rw [stepAt_eq hid hi] at hstep
          cases hone : CilRepair.step e.memory id i frame with
          | ok moved => simp [hone, Except.map] at hstep
          | error reason =>
              obtain rfl : reason = .budgetExhausted limit := by
                simpa [hone, Except.map] using hstep
              rcases fault_of_step hone with ⟨index, h⟩ | ⟨h, -⟩ <;> exact absurd h (by simp)
  | step _ _ _ _ ih => exact ih

/-! ### Thresholds -/

/-- **Answers have a threshold:** below it they report the budget that they were given, and from it
on they are one and the same, which is no report of a budget. -/
structure SettlesAt (answers : Nat → Evaluated) (threshold : ℕ∞) (settled : Evaluated) : Prop where
  settled_ne : ∀ limit, settled ≠ .unknown (.budgetExhausted limit)
  below : ∀ budget : Nat, budget < threshold →
    answers budget = .unknown (.budgetExhausted budget)
  above : ∀ budget : Nat, threshold ≤ budget → answers budget = settled

/-- Answers that no budget settles. -/
theorem settlesAt_top {answers : Nat → Evaluated}
    (h : ∀ budget, answers budget = .unknown (.budgetExhausted budget)) :
    SettlesAt answers ⊤ (.unknown .notReached) where
  settled_ne limit := by simp
  below budget _ := h budget
  above budget htop := absurd (top_le_iff.mp htop) (ENat.natCast_ne_top budget)

/-- Answers that do not depend on the budget. -/
theorem settlesAt_zero {answers : Nat → Evaluated} {settled : Evaluated}
    (hne : ∀ limit, settled ≠ .unknown (.budgetExhausted limit))
    (h : ∀ budget, answers budget = settled) : SettlesAt answers 0 settled where
  settled_ne := hne
  below _ hlt := absurd hlt not_lt_zero
  above budget _ := h budget

/-- **More budget does not change a settled answer.**  An answer that is no spent budget was given
at the threshold or above it. -/
theorem SettlesAt.eq_of_le {answers : Nat → Evaluated} {threshold : ℕ∞} {settled : Evaluated}
    (h : SettlesAt answers threshold settled) {budget more : Nat} (hle : budget ≤ more)
    (hne : answers budget ≠ .unknown (.budgetExhausted budget)) :
    answers more = answers budget := by
  have hreached : threshold ≤ budget := not_lt.mp fun hlt => hne (h.below budget hlt)
  rw [h.above budget hreached, h.above more (hreached.trans (Nat.cast_le.mpr hle))]

section Answers

variable {query : Query} (hquery : query.InRange e.body) (hlive : e.body.isLive target = true)

include hquery hlive

/-- A query for a live target is a run from the start. -/
theorem answer_withBudget (budget : Nat) :
    (e.withBudget budget).answer target query =
      .ofExcept ((e.withBudget budget).runFrom target budget 0 ⟨[], e.startLocals target query⟩ >>=
        query.read) := by
  have hrun : (e.withBudget budget).run target (e.startLocals target query) =
      (e.withBudget budget).runFrom target budget 0 ⟨[], e.startLocals target query⟩ :=
    if_pos hlive
  rw [answer_eq (e := e.withBudget budget) hquery, ← hrun]
  cases query <;> rfl

/-- **A query settles at the price of its run,** if the run has an end.  Below the price every
budget is spent on the way, and from the price on the run is over before its budget is. -/
theorem Ends.settlesAt (h : e.Ends target cost 0 ⟨[], e.startLocals target query⟩ result) :
    SettlesAt (fun budget => (e.withBudget budget).answer target query) cost
      (.ofExcept (result >>= query.read)) where
  settled_ne limit := by
    have hend := h.ne_budgetExhausted limit
    cases result with
    | error reason => simpa [bind, Except.bind, Evaluated.ofExcept] using hend
    | ok final =>
        have hread := query.read_ne_budgetExhausted final limit
        cases hvalue : query.read final with
        | ok value => simp [bind, Except.bind, hvalue, Evaluated.ofExcept]
        | error reason =>
            rw [hvalue] at hread
            simpa [bind, Except.bind, hvalue, Evaluated.ofExcept] using hread
  below budget hlt := by
    rw [answer_withBudget hquery hlive, h.runFrom_eq, if_pos (Nat.cast_lt.mp hlt)]
    rfl
  above budget hle := by
    rw [answer_withBudget hquery hlive, h.runFrom_eq, if_neg (Nat.not_lt.mpr (Nat.cast_le.mp hle))]

/-- A query whose run has no end is never settled. -/
theorem settlesAt_of_not_ends
    (h : ¬ ∃ cost result, e.Ends target cost 0 ⟨[], e.startLocals target query⟩ result) :
    SettlesAt (fun budget => (e.withBudget budget).answer target query) ⊤
      (.unknown .notReached) := by
  refine settlesAt_top fun budget => ?_
  have hcut : (e.withBudget budget).runFrom target budget 0 ⟨[], e.startLocals target query⟩ =
      .error (.budgetExhausted budget) := by
    by_contra hne
    obtain ⟨cost, result, -, hends⟩ := exists_ends hne
    exact h ⟨cost, result, hends⟩
  rw [answer_withBudget hquery hlive, hcut]
  rfl

end Answers

/-- **Every query has a threshold.**  It is zero if no run is made, the price of the run if it ends,
and infinite otherwise. -/
theorem exists_settlesAt (e : Evaluator) (target : InstrId) (query : Query) :
    ∃ threshold settled,
      SettlesAt (fun budget => (e.withBudget budget).answer target query) threshold settled := by
  by_cases hquery : query.InRange e.body
  · by_cases hlive : e.body.isLive target = true
    · by_cases hends : ∃ cost result, e.Ends target cost 0 ⟨[], e.startLocals target query⟩ result
      · obtain ⟨cost, result, h⟩ := hends
        exact ⟨cost, _, h.settlesAt hquery hlive⟩
      · exact ⟨⊤, _, settlesAt_of_not_ends hquery hlive hends⟩
    · refine ⟨0, .unknown .targetNotInBody, settlesAt_zero (fun limit => by simp) fun budget => ?_⟩
      have hrun : (e.withBudget budget).run target (e.startLocals target query) =
          .error .targetNotInBody := if_neg hlive
      rw [answer_eq (e := e.withBudget budget) hquery]
      cases query <;> exact congrArg (fun run => Evaluated.ofExcept (run >>= _)) hrun
  · obtain ⟨index, h⟩ := answer_of_not_inRange target hquery
    exact ⟨0, _, settlesAt_zero (fun limit => by simp) h⟩

/-- **The budget is a threshold.**  For every body, memory, shift, target and query there is a
number of steps, possibly infinite, below which the query reports the budget that it was given, and
from which on it has one and the same answer, which is a value or another reason.  So more budget
never changes an answer that was not a spent budget. -/
theorem budget_is_threshold (e : Evaluator) (target : InstrId) (query : Query) :
    (∃ threshold settled,
      SettlesAt (fun budget => (e.withBudget budget).answer target query) threshold settled) ∧
    ∀ budget more, budget ≤ more →
      (e.withBudget budget).answer target query ≠ .unknown (.budgetExhausted budget) →
      (e.withBudget more).answer target query = (e.withBudget budget).answer target query := by
  obtain ⟨threshold, settled, h⟩ := exists_settlesAt e target query
  exact ⟨⟨threshold, settled, h⟩, fun budget more => h.eq_of_le⟩

/-- A loop that counts a local down from three, and the end behind it. -/
def countdown : Evaluator where
  body :=
    { MethodBody.empty with
      arena := [.shortestLiteral 3, .of (.stloc .short) (.slot 0), .of (.ldloc .short) (.slot 0),
        .shortestLiteral 1, .bare (.binary .sub), .of (.stloc .short) (.slot 0),
        .of (.ldloc .short) (.slot 0), .shortestLiteral 0,
        .of (.branch .bneUn .short) (.target ⟨2⟩), .ret]
      order := [⟨0⟩, ⟨1⟩, ⟨2⟩, ⟨3⟩, ⟨4⟩, ⟨5⟩, ⟨6⟩, ⟨7⟩, ⟨8⟩, ⟨9⟩]
      locals := [⟨none, .i4⟩] }
  memory := []
  budget := defaultBudget
  offsetShift := none

/-- The two instructions in front and three rounds of seven make twenty-three steps; to arrive at
the end takes one more. -/
theorem countdown_settles :
    (∀ budget < 24, (countdown.withBudget budget).answer ⟨9⟩ (.slot 0) =
      .unknown (.budgetExhausted budget)) ∧
    ∀ budget ≥ 24, (countdown.withBudget budget).answer ⟨9⟩ (.slot 0) = .known 0 := by
  obtain ⟨⟨threshold, settled, hsettles⟩, hmore⟩ := budget_is_threshold countdown ⟨9⟩ (.slot 0)
  have hcut : (countdown.withBudget 23).answer ⟨9⟩ (.slot 0) =
      .unknown (.budgetExhausted 23) := by rfl
  have hknown : (countdown.withBudget 24).answer ⟨9⟩ (.slot 0) = .known 0 := by rfl
  have hthreshold : (23 : ℕ) < threshold := by
    by_contra hle
    exact hsettles.settled_ne 23 ((hsettles.above 23 (not_lt.mp hle)).symm.trans hcut)
  refine ⟨fun budget hlt => hsettles.below budget ?_, fun budget hle => ?_⟩
  · exact lt_of_le_of_lt (Nat.cast_le.mpr (Nat.le_of_lt_succ hlt)) hthreshold
  · exact (hmore 24 budget hle (by rw [hknown]; simp)).trans hknown

end Evaluator

end CilRepair
