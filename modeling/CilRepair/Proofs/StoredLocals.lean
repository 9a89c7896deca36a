import CilRepair.Proofs.Runs

/-!
# Locals that a run stores before it loads them

The locals that a query starts from are a guess, made by a scan of the layout.  A run that stores
every local before it loads it cannot tell one guess from another: from other locals it runs through
the same instructions, with the same stack, and ends with the same values in the locals that it has
stored.

* `Instruction.LoadsOnlyStored`, `StoresBeforeLoads` — the condition.
* `Evaluator.trailFrom`, `Evaluator.trail` — the instructions of a run;
  `Evaluator.runFrom_eq_ok_iff_length_trail` says that they are its steps.
* `Frame.AgreeAfter` — two frames of such runs, and `Frame.AgreeAfter.step`, one step of both.
* `Evaluator.resolveLocal_of_stored` — the answer is the same from all locals, guessed or not.

Nothing is asked of the body: references may dangle, and identities may repeat.

## Design notes

The instructions of a run are a list, `trail`, so that the condition on loads is one about a list
and can be decided for a given run.  The induction over a run carries the instructions that it has
been through, `done`, and the two frames agree on the locals that these have stored.

Agreement is about one pair of frames, and a load is the only step that could tell them apart.  It
loads what has been stored, on which they agree; this is the whole of the argument, and the rest is
that no other step looks at locals.

The budget is part of the statement.  A run reaches its target just within the budgets that are
greater than the length of its trail, and the trails are equal, so the answers agree for each
budget.
-/

namespace CilRepair

/-! ### The condition -/

namespace Instruction

/-- **The instruction loads only what others have stored.** -/
def LoadsOnlyStored (i : Instruction) (done : List Instruction) : Prop :=
  ∀ index ∈ i.loadedLocal?, ∃ j ∈ done, j.storedLocal? = some index

instance (i : Instruction) (done : List Instruction) : Decidable (i.LoadsOnlyStored done) :=
  Option.decidableForallMem i.loadedLocal?

end Instruction

/-- **Every load comes after a store to the same local.** -/
def StoresBeforeLoads (is : List Instruction) : Prop :=
  ∀ k < is.length, ∀ i ∈ is[k]?, i.LoadsOnlyStored (is.take k)

instance (is : List Instruction) : Decidable (StoresBeforeLoads is) :=
  inferInstanceAs (Decidable (∀ k < is.length, ∀ i ∈ is[k]?, i.LoadsOnlyStored (is.take k)))

/-- The condition, read at one instruction of the list. -/
theorem StoresBeforeLoads.loadsOnlyStored {before after : List Instruction} {i : Instruction}
    (h : StoresBeforeLoads (before ++ i :: after)) : i.LoadsOnlyStored before := by
  have hat : (before ++ i :: after)[before.length]? = some i := by simp
  have hlt : before.length < (before ++ i :: after).length := by simp
  have hi := h before.length hlt i hat
  rwa [List.take_left] at hi

/-! ### One step -/

section Step

variable {memory : Memory} {id : InstrId} {i : Instruction} {frame frame' next : Frame}
  {jump : Option InstrId} {done : List Instruction}

/-- No step adds a local or takes one away. -/
theorem length_locals_of_step (hstep : step memory id i frame = .ok (next, jump)) :
    next.locals.length = frame.locals.length := by
  cases hload : i.opcode.isLoadLocal with
  | true =>
      obtain ⟨_, _, -, -, rfl, -⟩ := (step_load_eq_ok_iff hload).mp hstep
      rfl
  | false =>
      cases hstore : i.opcode.isStoreLocal with
      | true =>
          obtain ⟨_, _, _, -, -, -, rfl, -⟩ := (step_store_eq_ok_iff hstore).mp hstep
          exact List.length_set
      | false => rw [locals_of_step hload hstore hstep]

/-! ### Two frames -/

/-- **Two frames agree after some instructions:** on the stack, on the number of locals, and on the
locals that these instructions have stored. -/
structure Frame.AgreeAfter (done : List Instruction) (frame frame' : Frame) : Prop where
  stack : frame'.stack = frame.stack
  length : frame'.locals.length = frame.locals.length
  stored : ∀ j ∈ done, ∀ index, j.storedLocal? = some index →
    ∃ value, frame.locals[index.toNat]? = some value ∧ frame'.locals[index.toNat]? = some value

/-- At the start frames agree if they have as many locals. -/
theorem Frame.agreeAfter_nil {locals locals' : List Int32}
    (hlength : locals'.length = locals.length) :
    Frame.AgreeAfter [] ⟨[], locals⟩ ⟨[], locals'⟩ :=
  ⟨rfl, hlength, fun _ hj => absurd hj List.not_mem_nil⟩

namespace Frame.AgreeAfter

/-- An instruction that stores nothing adds nothing. -/
theorem concat (h : Frame.AgreeAfter done frame frame') (hnone : i.storedLocal? = none) :
    Frame.AgreeAfter (done ++ [i]) frame frame' where
  stack := h.stack
  length := h.length
  stored j hj index hindex := by
    rcases List.mem_append.mp hj with hj | hj
    · exact h.stored j hj index hindex
    · rw [List.mem_singleton.mp hj, hnone] at hindex
      exact absurd hindex (by simp)

/-- Frames that agree load the same value, if the local has been stored. -/
theorem load (h : Frame.AgreeAfter done frame frame') (hload : i.opcode.isLoadLocal = true)
    (hloads : i.LoadsOnlyStored done)
    (hstep : step memory id i frame = .ok (next, jump)) :
    ∃ next', step memory id i frame' = .ok (next', jump) ∧
      Frame.AgreeAfter (done ++ [i]) next next' := by
  obtain ⟨index, value, hlocal, hvalue, rfl, rfl⟩ := (step_load_eq_ok_iff hload).mp hstep
  obtain ⟨j, hj, hstored⟩ := hloads index hlocal
  obtain ⟨value', hold, hnew⟩ := h.stored j hj index hstored
  obtain rfl : value = value' := Option.some.inj (hvalue.symm.trans hold)
  have hpushed : Frame.AgreeAfter done { frame with stack := value :: frame.stack }
      { frame' with stack := value :: frame'.stack } :=
    ⟨congrArg (value :: ·) h.stack, h.length, h.stored⟩
  exact ⟨_, (step_load_eq_ok_iff hload).mpr ⟨index, value, hlocal, hnew, rfl, rfl⟩,
    hpushed.concat (Instruction.storedLocal?_of_load hload)⟩

/-- Frames that agree store the same value, and from then on agree on that local as well.  The value
comes from the stack, which they have in common. -/
theorem store (h : Frame.AgreeAfter done frame frame') (hstore : i.opcode.isStoreLocal = true)
    (hstep : step memory id i frame = .ok (next, jump)) :
    ∃ next', step memory id i frame' = .ok (next', jump) ∧
      Frame.AgreeAfter (done ++ [i]) next next' := by
  obtain ⟨index, value, rest, hlocal, hlt, hstack, rfl, rfl⟩ :=
    (step_store_eq_ok_iff hstore).mp hstep
  have hlt' : index.toNat < frame'.locals.length := by
    rw [h.length]
    exact hlt
  refine ⟨_, (step_store_eq_ok_iff hstore).mpr
    ⟨index, value, rest, hlocal, hlt', h.stack.trans hstack, rfl, rfl⟩, rfl, ?_, ?_⟩
  · simp [h.length]
  · intro j hj other hother
    by_cases hsame : index.toNat = other.toNat
    · exact ⟨value, by simp [← hsame, hlt], by simp [← hsame, hlt']⟩
    · -- Another local is as it was before.
      have hj : j ∈ done := by
        refine (List.mem_append.mp hj).resolve_right fun hlast => ?_
        rw [List.mem_singleton.mp hlast, hlocal] at hother
        exact hsame (congrArg UInt16.toNat (Option.some.inj hother))
      simpa [List.getElem?_set_ne hsame] using h.stored j hj other hother

/-- **Frames that agree are told apart by no instruction,** if it loads only what has been
stored. -/
theorem step (h : Frame.AgreeAfter done frame frame')
    (hloads : i.LoadsOnlyStored done)
    (hstep : step memory id i frame = .ok (next, jump)) :
    ∃ next', step memory id i frame' = .ok (next', jump) ∧
      Frame.AgreeAfter (done ++ [i]) next next' := by
  cases hload : i.opcode.isLoadLocal with
  | true => exact h.load hload hloads hstep
  | false =>
      cases hstore : i.opcode.isStoreLocal with
      | true => exact h.store hstore hstep
      | false =>
          have hframe : frame' = { frame with locals := frame'.locals } := by rw [← h.stack]
          have hkept := locals_of_step hload hstore hstep
          have hstep' : CilRepair.step memory id i frame' =
              .ok ({ next with locals := frame'.locals }, jump) := by
            rw [hframe, step_withLocals hload hstore, hstep]
            rfl
          have hnext : Frame.AgreeAfter done next { next with locals := frame'.locals } :=
            ⟨rfl, by rw [hkept, h.length], by rw [hkept]; exact h.stored⟩
          exact ⟨_, hstep', hnext.concat (Instruction.storedLocal?_of_not_store hstore)⟩

end Frame.AgreeAfter

end Step

/-! ### Runs -/

namespace Evaluator

variable {e : Evaluator} {target : InstrId} {p q n m : Nat} {frame frame' next final : Frame}
  {done : List Instruction}

/-- **The instructions of a run,** in the order in which it comes to them. -/
def trailFrom (e : Evaluator) (target : InstrId) :
    (remaining position : Nat) → Frame → List Instruction
  | 0, _, _ => []
  | remaining + 1, position, frame =>
    if e.body.idAt? position = some target then []
    else match e.body.at? position, e.stepAt position frame with
      | some i, .ok (next, frame) => i :: e.trailFrom target remaining next frame
      | _, _ => []

/-- **The instructions of a query** before its target, from given locals. -/
def trail (e : Evaluator) (target : InstrId) (locals : List Int32) : List Instruction :=
  e.trailFrom target e.budget 0 ⟨[], locals⟩

/-- Nor does a run. -/
theorem length_locals_of_runFrom (h : e.runFrom target n p frame = .ok final) :
    final.locals.length = frame.locals.length := by
  induction n generalizing p frame with
  | zero => exact absurd h runFrom_zero_ne_ok
  | succ n ih =>
      rcases runFrom_eq_ok_cases h with ⟨-, rfl⟩ | ⟨-, q, next, hstep, hrest⟩
      · rfl
      · obtain ⟨_, _, _, -, -, hone, -⟩ := exists_of_stepAt hstep
        rw [ih hrest, length_locals_of_step hone]

/-- At its target a run is over, -/
theorem trailFrom_of_target (htarget : e.body.idAt? p = some target) :
    e.trailFrom target n p frame = [] := by
  cases n with
  | zero => rfl
  | succ n => rw [trailFrom, if_pos htarget]

/-- and before it one instruction comes first. -/
theorem trailFrom_of_step (htarget : e.body.idAt? p ≠ some target) {i : Instruction}
    (hi : e.body.at? p = some i) (hstep : e.stepAt p frame = .ok (q, next)) :
    e.trailFrom target (n + 1) p frame = i :: e.trailFrom target n q next := by
  rw [trailFrom, if_neg htarget]
  simp only [hi, hstep]

/-- **The instructions of a run are its steps:** it reaches its target within those budgets that
have room for all of them, and for its arrival.  By induction on the budget of the run that is
known. -/
theorem runFrom_eq_ok_iff_length_trail (h : e.runFrom target n p frame = .ok final) :
    e.runFrom target m p frame = .ok final ↔ (e.trailFrom target n p frame).length < m := by
  induction n generalizing m p frame with
  | zero => exact absurd h runFrom_zero_ne_ok
  | succ n ih =>
      rcases runFrom_eq_ok_cases h with ⟨htarget, rfl⟩ | ⟨htarget, q, next, hstep, hrest⟩
      · rw [trailFrom_of_target htarget, List.length_nil]
        cases m with
        | zero => exact ⟨fun h => absurd h runFrom_zero_ne_ok, fun h => absurd h (by omega)⟩
        | succ m => simp [runFrom_succ_eq, htarget]
      · obtain ⟨id, i, jump, hid, hi, -⟩ := exists_of_stepAt hstep
        rw [trailFrom_of_step htarget ((MethodBody.at?_of_idAt? hid).trans hi) hstep,
          List.length_cons]
        cases m with
        | zero => exact ⟨fun h => absurd h runFrom_zero_ne_ok, fun h => absurd h (by omega)⟩
        | succ m =>
            rw [runFrom_succ_eq, if_neg htarget, hstep, Nat.succ_lt_succ_iff]
            exact ih hrest

/-- **Frames that agree are told apart by no run** that loads only what has been stored: it goes
through the same instructions and ends with frames that agree.  By induction on the budget, with the
instructions that have been passed generalised. -/
theorem runFrom_agree (h : Frame.AgreeAfter done frame frame')
    (hrun : e.runFrom target n p frame = .ok final)
    (hloads : StoresBeforeLoads (done ++ e.trailFrom target n p frame)) :
    ∃ final', e.runFrom target n p frame' = .ok final' ∧
      e.trailFrom target n p frame' = e.trailFrom target n p frame ∧
      Frame.AgreeAfter (done ++ e.trailFrom target n p frame) final final' := by
  -- By induction on the budget.  Each instruction goes from the rest of the run to what is done.
  induction n generalizing done p frame frame' with
  | zero => exact absurd hrun runFrom_zero_ne_ok
  | succ n ih =>
      rcases runFrom_eq_ok_cases hrun with ⟨htarget, rfl⟩ | ⟨htarget, q, next, hstep, hrest⟩
      · refine ⟨frame', by rw [runFrom_succ_eq, if_pos htarget], ?_, ?_⟩
        · rw [trailFrom_of_target htarget, trailFrom_of_target htarget]
        · rw [trailFrom_of_target htarget, List.append_nil]
          exact h
      · obtain ⟨id, i, jump, hid, hi, hone, hq⟩ := exists_of_stepAt hstep
        have hat : e.body.at? p = some i := (MethodBody.at?_of_idAt? hid).trans hi
        rw [trailFrom_of_step htarget hat hstep] at hloads ⊢
        obtain ⟨next', hone', hagree⟩ := h.step hloads.loadsOnlyStored hone
        have hstep' : e.stepAt p frame' = .ok (q, next') := by
          rw [stepAt_eq hid hi, hone', hq]
          rfl
        rw [List.append_cons] at hloads ⊢
        obtain ⟨final', hrun', htrail', hend⟩ := ih hagree hrest hloads
        refine ⟨final', ?_, ?_, hend⟩
        · rw [runFrom_succ_eq, if_neg htarget, hstep']
          exact hrun'
        · rw [trailFrom_of_step htarget hat hstep', htrail']

theorem isLive_of_run {locals : List Int32} (h : e.run target locals = .ok final) :
    e.body.isLive target = true := by
  by_contra hdead
  rw [run, if_neg hdead] at h
  exact absurd h (by simp)

theorem runFrom_of_run {locals : List Int32} (h : e.run target locals = .ok final) :
    e.runFrom target e.budget 0 ⟨[], locals⟩ = .ok final := by
  rw [run, if_pos (isLive_of_run h)] at h
  exact h

/-- **A query loads only what has been stored, and so all locals are alike to it:** its runs go
through the same instructions within the same budgets, and end with frames that agree. -/
theorem run_agree {locals locals' : List Int32} (hlength : locals'.length = locals.length)
    (hrun : e.run target locals = .ok final) (hloads : StoresBeforeLoads (e.trail target locals)) :
    ∃ final', e.run target locals' = .ok final' ∧ e.trail target locals' = e.trail target locals ∧
      (∀ n, e.runFrom target n 0 ⟨[], locals'⟩ = .ok final' ↔
        e.runFrom target n 0 ⟨[], locals⟩ = .ok final) ∧
      Frame.AgreeAfter (e.trail target locals) final final' := by
  have hrun' := runFrom_of_run hrun
  obtain ⟨final', hreached, htrail, hagree⟩ :=
    runFrom_agree (Frame.agreeAfter_nil hlength) hrun' hloads
  refine ⟨final', ?_, htrail, fun n => ?_, hagree⟩
  · rw [run, if_pos (isLive_of_run hrun), hreached]
  · rw [runFrom_eq_ok_iff_length_trail hreached, runFrom_eq_ok_iff_length_trail hrun', htrail]

/-! ### Answers -/

/-- **The value of a local at a target, from given locals.** -/
def resolveFrom (e : Evaluator) (target : InstrId) (index : UInt16) (locals : List Int32) :
    Evaluated :=
  .ofExcept <| do
    let frame ← e.run target locals
    match frame.locals[index.toNat]? with
    | some value => .ok value
    | none => .error (.localOutOfRange index)

/-- A query is one from the seeds. -/
theorem resolveLocal_eq_resolveFrom {index : UInt16}
    (hindex : index.toNat < e.body.locals.length) :
    e.resolveLocal target index = e.resolveFrom target index (e.seededLocals target) :=
  if_neg (by omega)

/-- The value that a run ends with is the answer. -/
theorem resolveFrom_of_run {index : UInt16} {locals : List Int32} {value : Int32}
    (hrun : e.run target locals = .ok final) (hvalue : final.locals[index.toNat]? = some value) :
    e.resolveFrom target index locals = .known value := by
  rw [resolveFrom, hrun]
  simp [bind, Except.bind, hvalue, Evaluated.ofExcept]

/-- The evaluator with another shift, or without one. -/
def withShift (e : Evaluator) (shift : Option Int32) : Evaluator := { e with offsetShift := shift }

/-- The shift takes part in the guess, and not in the run. -/
theorem runFrom_withShift (e : Evaluator) (shift : Option Int32) (target : InstrId) (n p : Nat)
    (frame : Frame) :
    (e.withShift shift).runFrom target n p frame = e.runFrom target n p frame := by
  induction n generalizing p frame with
  | zero => cases hid : e.body.idAt? p <;> simp [runFrom, withShift, hid]
  | succ n ih =>
      have hstep : (e.withShift shift).stepAt p frame = e.stepAt p frame := rfl
      have hbody : (e.withShift shift).body = e.body := rfl
      simp only [runFrom_succ_eq, hstep, hbody, ih]

/-- A query does not depend on the shift, -/
theorem run_withShift (e : Evaluator) (shift : Option Int32) (target : InstrId)
    (locals : List Int32) : (e.withShift shift).run target locals = e.run target locals := by
  simp only [run, runFrom_withShift]
  rfl

/-- and an answer from given locals does not either. -/
theorem resolveFrom_withShift (e : Evaluator) (shift : Option Int32) (target : InstrId)
    (index : UInt16) (locals : List Int32) :
    (e.withShift shift).resolveFrom target index locals = e.resolveFrom target index locals := by
  rw [resolveFrom, resolveFrom, run_withShift]

/-- Stores of seeds add no local.  A number behind the last local is stored nowhere. -/
theorem length_seedStores (previous : Option Instruction) (is : List (InstrId × Instruction))
    (locals : List Int32) : (seedStores target previous is locals).length = locals.length := by
  induction is generalizing previous locals with
  | nil => rfl
  | cons x is ih =>
      obtain ⟨id, i⟩ := x
      rw [seedStores]
      split
      · rfl
      · rw [ih]
        split
        · exact List.length_set
        · rfl

/-- The seeds are as many as the body has locals. -/
theorem length_seededLocals (e : Evaluator) (target : InstrId) :
    (e.seededLocals target).length = e.body.locals.length := by
  rw [seededLocals, length_seedStores]
  split <;> simp [zeroLocals]

/-- **Guesses cannot change the value of a local that a run stores.**  If from some locals a run
reaches its target, loads no local that it has not stored, and stores the one in question, then it
does so from all locals: through the same instructions, within the same budgets, with the same stack
and with the same value.  The answer is that value whatever is guessed: with any shift or none, and
with the literals that the layout stores, or without. -/
theorem resolveLocal_of_stored (e : Evaluator) (target : InstrId) (index : UInt16)
    (locals : List Int32) (final : Frame) (hlength : locals.length = e.body.locals.length)
    (hrun : e.run target locals = .ok final)
    (hloads : StoresBeforeLoads (e.trail target locals))
    (hstored : ∃ i ∈ e.trail target locals, i.storedLocal? = some index) :
    ∃ value, final.locals[index.toNat]? = some value ∧
      (∀ locals' : List Int32, locals'.length = e.body.locals.length →
        ∃ final', e.run target locals' = .ok final' ∧
          e.trail target locals' = e.trail target locals ∧
          (∀ n, e.runFrom target n 0 ⟨[], locals'⟩ = .ok final' ↔
            e.runFrom target n 0 ⟨[], locals⟩ = .ok final) ∧
          final'.stack = final.stack ∧ final'.locals[index.toNat]? = some value) ∧
      (∀ locals' : List Int32, locals'.length = e.body.locals.length →
        e.resolveFrom target index locals' = .known value) ∧
      ∀ shift, (e.withShift shift).resolveLocal target index = .known value := by
  obtain ⟨i, hi, hindex⟩ := hstored
  obtain ⟨_, -, -, -, hself⟩ := run_agree rfl hrun hloads
  obtain ⟨value, hvalue, -⟩ := hself.stored i hi index hindex
  -- Frames that agree have the same value in every local that was stored.
  have hsame : ∀ {final'}, Frame.AgreeAfter (e.trail target locals) final final' →
      final'.locals[index.toNat]? = some value := by
    intro final' hagree
    obtain ⟨value', hold, hnew⟩ := hagree.stored i hi index hindex
    rw [hnew, ← hold, hvalue]
  have hanswer : ∀ locals' : List Int32, locals'.length = e.body.locals.length →
      e.resolveFrom target index locals' = .known value := by
    intro locals' hlength'
    obtain ⟨final', hreached, -, -, hagree⟩ := run_agree (hlength'.trans hlength.symm) hrun hloads
    exact resolveFrom_of_run hreached (hsame hagree)
  refine ⟨value, hvalue, fun locals' hlength' => ?_, hanswer, fun shift => ?_⟩
  · obtain ⟨final', hreached, htrail, hbudgets, hagree⟩ :=
      run_agree (hlength'.trans hlength.symm) hrun hloads
    exact ⟨final', hreached, htrail, hbudgets, hagree.stack, hsame hagree⟩
  · obtain ⟨hlt, -⟩ := List.getElem?_eq_some_iff.mp hvalue
    have hdeclared : index.toNat < (e.withShift shift).body.locals.length := by
      rw [length_locals_of_runFrom (runFrom_of_run hrun)] at hlt
      exact hlength ▸ hlt
    rw [resolveLocal_eq_resolveFrom hdeclared, resolveFrom_withShift]
    exact hanswer _ (length_seededLocals (e.withShift shift) target)

/-- A sum in a local that is also stored, and loaded, where the run does not come.  The code behind
the target has the idiom that reads memory at a shifted address, and it names the other local. -/
def skippedStore : Evaluator where
  body :=
    { arena := [.shortestLiteral 5, ⟨.stloc .short, .slot 1, 0⟩, ⟨.ldloc .short, .slot 1, 0⟩,
        .shortestLiteral 5, ⟨.branch .beq .short, .target ⟨8⟩, 0⟩, ⟨.ldloc .short, .slot 0, 0⟩,
        .shortestLiteral 7, ⟨.stloc .short, .slot 0, 0⟩, .shortestLiteral 3,
        ⟨.ldloc .short, .slot 1, 0⟩, .bare (.binary .add), ⟨.stloc .short, .slot 0, 0⟩,
        ⟨.ldloc .short, .slot 1, 0⟩, .bare (.binary .add), .bare .ldindI4, .bare .ret]
      order := [⟨0⟩, ⟨1⟩, ⟨2⟩, ⟨3⟩, ⟨4⟩, ⟨5⟩, ⟨6⟩, ⟨7⟩, ⟨8⟩, ⟨9⟩, ⟨10⟩, ⟨11⟩, ⟨12⟩, ⟨13⟩, ⟨14⟩,
        ⟨15⟩]
      locals := [⟨none, .i4⟩, ⟨none, .i4⟩]
      handlers := []
      maxStack := 8
      initLocals := false }
  memory := []
  budget := 100
  offsetShift := some defaultOffsetShift

/-- The layout guesses seven, and the answer is eight with that guess and without it. -/
theorem skippedStore_resolves :
    skippedStore.seededLocals ⟨12⟩ = [7, 5] ∧ (skippedStore.trail ⟨12⟩ [2, -1]).length = 9 ∧
      (∀ shift, (skippedStore.withShift shift).resolveLocal ⟨12⟩ 0 = .known 8) ∧
      skippedStore.resolveFrom ⟨12⟩ 0 [0, 4] = .known 8 := by
  have hrun : skippedStore.run ⟨12⟩ [2, -1] = .ok ⟨[], [8, 5]⟩ := rfl
  have hloads : StoresBeforeLoads (skippedStore.trail ⟨12⟩ [2, -1]) := by decide
  have hstored : ∃ i ∈ skippedStore.trail ⟨12⟩ [2, -1], i.storedLocal? = some 0 := by decide
  obtain ⟨value, hvalue, -, hfrom, hshifts⟩ :=
    resolveLocal_of_stored skippedStore ⟨12⟩ 0 [2, -1] ⟨[], [8, 5]⟩ rfl hrun hloads hstored
  obtain rfl : 8 = value := Option.some.inj hvalue
  exact ⟨by decide, by decide, hshifts, hfrom [0, 4] rfl⟩

end Evaluator

end CilRepair
