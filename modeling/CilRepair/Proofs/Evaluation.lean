import CilRepair.Evaluator
import CilRepair.Proofs.Erasure
import CilRepair.Proofs.Lists

/-!
# Runs of the evaluator under changes of the body

A query is a run, and a run is steps at places.  What a change of the body does to a query is
therefore settled by what it does to one step, plus what it does to the locals that a run starts
from.

* `step_load_eq_ok_iff`, `step_store_eq_ok_iff`, `step_withLocals` — what loads and stores do, and
  that nothing else looks at locals.
* `step_extend` — hence a step that succeeds is not disturbed by further locals.
* `Evaluator.runFrom_extend` — if every step of one body is matched in another, so is every run
  that reaches its target.
* `Evaluator.KeepsKnown` — known answers carry over from one evaluator to another; `keepsKnown`
  derives it from the steps and the seeds.
* `Evaluator.peekStack_erased`, `Evaluator.resolveLocal_erased` — the evaluator does not see layout.

Only runs that reach their target are transported.  A run that falls off the end of a body, or
stops at a local that is not declared, has no known answer to preserve.

## Design notes

A step is a function of an instruction and a frame that knows nothing of the body; where to go next
is decided outside of it.  So the lemmas about one step come first, and everything that a change of
the body can do to a run is put into `StepsMatch`, which a stage proves instruction by instruction.

Loads and stores get equivalences and not only implications, since both directions are used: forward
to run a step in the changed body, backward to learn from a successful step which local it needed.

`StepsMatch` allows the second body to be longer and to declare more locals, because repair appends
a return and declares locals.  It does not allow it to be shorter; stages that remove instructions
compare runs by kept places instead.
-/

namespace CilRepair

/-! ### Loads and stores -/

theorem OpCode.isLoadLocal_iff {op : OpCode} :
    op.isLoadLocal = true ↔ ∃ form, op = .ldloc form := by
  cases op <;> simp [OpCode.isLoadLocal]

theorem OpCode.isStoreLocal_iff {op : OpCode} :
    op.isStoreLocal = true ↔ ∃ form, op = .stloc form := by
  cases op <;> simp [OpCode.isStoreLocal]

namespace Instruction

/-- The local that the instruction loads. -/
def loadedLocal? (i : Instruction) : Option UInt16 :=
  if i.opcode.isLoadLocal then i.local? else none

/-- The local that the instruction stores. -/
def storedLocal? (i : Instruction) : Option UInt16 :=
  if i.opcode.isStoreLocal then i.local? else none

/-- A load stores nothing. -/
theorem storedLocal?_of_load {i : Instruction} (hload : i.opcode.isLoadLocal = true) :
    i.storedLocal? = none := by
  obtain ⟨form, hop⟩ := OpCode.isLoadLocal_iff.mp hload
  rw [storedLocal?, hop]
  rfl

/-- What is no store stores nothing. -/
theorem storedLocal?_of_not_store {i : Instruction} (hstore : i.opcode.isStoreLocal = false) :
    i.storedLocal? = none := by
  rw [storedLocal?, hstore]
  rfl

end Instruction

/-! ### One step -/

/-- A frame with further locals behind its own. -/
def Frame.extend (frame : Frame) (extra : List Int32) : Frame :=
  { frame with locals := frame.locals ++ extra }

@[simp] theorem Frame.stack_extend (frame : Frame) (extra : List Int32) :
    (frame.extend extra).stack = frame.stack := rfl

@[simp] theorem Frame.locals_extend (frame : Frame) (extra : List Int32) :
    (frame.extend extra).locals = frame.locals ++ extra := rfl

section Step

variable {memory : Memory} {id : InstrId} {i j : Instruction} {frame next : Frame}
  {jump : Option InstrId}

/-- A checked slot is that of the local that the instruction names, and the frame has it.  The check
fails for no other reason. -/
theorem checkedSlot_eq_ok_iff {slot : Nat} :
    checkedSlot i frame = .ok slot ↔
      slot < frame.locals.length ∧ ∃ index, i.local? = some index ∧ index.toNat = slot := by
  unfold checkedSlot
  cases i.local? with
  | none => simp
  | some index =>
      by_cases hlt : index.toNat < frame.locals.length
      · simp only [hlt, if_true, Except.ok.injEq, Option.some.injEq]
        constructor
        · rintro rfl
          exact ⟨hlt, index, rfl, rfl⟩
        · rintro ⟨-, _, rfl, rfl⟩
          rfl
      · simp only [hlt, if_false, Option.some.injEq]
        constructor
        · exact fun h => absurd h (by simp)
        · rintro ⟨hslot, _, rfl, rfl⟩
          exact absurd hslot hlt

/-- **What a comparing branch does,** if it finds two values on the stack. -/
theorem stepCompare_eq_ok_iff {onEqual : Bool} :
    stepCompare onEqual id i frame = .ok (next, jump) ↔
      ∃ x y rest, frame.stack = x :: y :: rest ∧ next = { frame with stack := rest } ∧
        jump = if decide (y = x) = onEqual then i.branchTarget? else none := by
  rcases frame with ⟨_ | ⟨x, _ | ⟨y, rest⟩⟩, locals⟩
  · simp [stepCompare]
  · simp [stepCompare]
  · simp only [stepCompare, beq_iff_eq, Except.ok.injEq, Prod.mk.injEq]
    constructor
    · rintro ⟨hnext, hjump⟩
      exact ⟨x, y, rest, rfl, hnext.symm, hjump.symm⟩
    · rintro ⟨_, _, _, hstack, hnext, hjump⟩
      cases hstack
      exact ⟨hnext.symm, hjump.symm⟩

/-- What a step leaves, with other locals. -/
def withLocals (locals : List Int32) (result : StepResult) : StepResult :=
  result.map fun (next, jump) => ({ next with locals }, jump)

/-- A comparison leaves locals alone, -/
theorem stepCompare_withLocals (onEqual : Bool) (locals : List Int32) :
    stepCompare onEqual id i { frame with locals } =
      withLocals locals (stepCompare onEqual id i frame) := by
  rcases frame with ⟨_ | ⟨x, _ | ⟨y, rest⟩⟩, old⟩ <;> rfl

/-- and so does arithmetic. -/
theorem stepBinary_withLocals (op : BinaryOp) (locals : List Int32) :
    stepBinary op id { frame with locals } = withLocals locals (stepBinary op id frame) := by
  rcases frame with ⟨_ | ⟨x, _ | ⟨y, rest⟩⟩, old⟩ <;> cases op <;> rfl

/-- **What is no load and no store does not look at locals.**  By cases on the opcode: the two that
do are excluded, and each of the others commutes with a change of them. -/
theorem step_withLocals (hload : i.opcode.isLoadLocal = false)
    (hstore : i.opcode.isStoreLocal = false) (locals : List Int32) :
    step memory id i { frame with locals } = withLocals locals (step memory id i frame) := by
  unfold step
  cases i.literal? with
  | some value => rfl
  | none =>
      cases hop : i.opcode with
      | ldloc | stloc => simp [hop, OpCode.isLoadLocal, OpCode.isStoreLocal] at hload hstore
      | binary op => exact stepBinary_withLocals op locals
      | branch kind form =>
          cases kind with
          | beq | bneUn => exact stepCompare_withLocals _ locals
          | _ => rfl
      | dup | pop | ldindI4 => rcases frame with ⟨_ | ⟨top, rest⟩, old⟩ <;> rfl
      | _ => rfl

/-- What is no load and no store leaves the locals. -/
theorem locals_of_step (hload : i.opcode.isLoadLocal = false)
    (hstore : i.opcode.isStoreLocal = false)
    (hstep : step memory id i frame = .ok (next, jump)) : next.locals = frame.locals := by
  have hsame : step memory id i frame = withLocals frame.locals (step memory id i frame) :=
    step_withLocals hload hstore frame.locals
  rw [hstep] at hsame
  have hnext : next = { next with locals := frame.locals } :=
    (Prod.mk.inj (Except.ok.inj hsame)).1
  calc next.locals = ({ next with locals := frame.locals } : Frame).locals :=
        congrArg Frame.locals hnext
    _ = frame.locals := rfl

/-- **What a load does,** if the frame has the local.  Any other outcome is an answer that is not
known. -/
theorem step_load_eq_ok_iff (hload : i.opcode.isLoadLocal = true) :
    step memory id i frame = .ok (next, jump) ↔
      ∃ index value, i.loadedLocal? = some index ∧ frame.locals[index.toNat]? = some value ∧
        next = { frame with stack := value :: frame.stack } ∧ jump = none := by
  obtain ⟨form, hop⟩ := OpCode.isLoadLocal_iff.mp hload
  have hliteral : i.literal? = none := by simp [Instruction.literal?, hop]
  rw [step, hliteral, hop, Instruction.loadedLocal?, if_pos hload]
  dsimp only
  cases hslot : checkedSlot i frame with
  | error reason =>
      -- A local that could be read would have passed the check.
      refine ⟨fun h => absurd h (by simp [bind, Except.bind]), ?_⟩
      rintro ⟨index, value, hlocal, hvalue, -, -⟩
      obtain ⟨hlt, -⟩ := List.getElem?_eq_some_iff.mp hvalue
      rw [checkedSlot_eq_ok_iff.mpr ⟨hlt, index, hlocal, rfl⟩] at hslot
      exact absurd hslot (by simp)
  | ok slot =>
      obtain ⟨hlt, index, hlocal, rfl⟩ := checkedSlot_eq_ok_iff.mp hslot
      have hvalue : frame.locals[index.toNat]? = some (frame.locals.getD index.toNat 0) := by
        rw [List.getD_eq_getElem?_getD, List.getElem?_eq_getElem hlt, Option.getD_some]
      constructor
      · intro h
        obtain ⟨rfl, rfl⟩ : _ ∧ _ := by simpa [bind, Except.bind, proceed] using h
        exact ⟨index, _, hlocal, hvalue, by simp, rfl⟩
      · rintro ⟨index', value, hlocal', hvalue', rfl, rfl⟩
        obtain rfl : index = index' := Option.some.inj (hlocal.symm.trans hlocal')
        obtain rfl := Option.some.inj (hvalue.symm.trans hvalue')
        rfl

/-- **What a store does,** if there is a value and the frame has the local.  The value goes from the
stack to the local, and nothing is jumped to. -/
theorem step_store_eq_ok_iff (hstore : i.opcode.isStoreLocal = true) :
    step memory id i frame = .ok (next, jump) ↔
      ∃ index value rest, i.storedLocal? = some index ∧ index.toNat < frame.locals.length ∧
        frame.stack = value :: rest ∧ next = ⟨rest, frame.locals.set index.toNat value⟩ ∧
        jump = none := by
  obtain ⟨form, hop⟩ := OpCode.isStoreLocal_iff.mp hstore
  have hliteral : i.literal? = none := by simp [Instruction.literal?, hop]
  rw [step, hliteral, hop, Instruction.storedLocal?, if_pos hstore]
  dsimp only
  cases hslot : checkedSlot i frame with
  | error reason =>
      refine ⟨fun h => absurd h (by simp [bind, Except.bind]), ?_⟩
      rintro ⟨index, value, rest, hlocal, hlt, -, -, -⟩
      rw [checkedSlot_eq_ok_iff.mpr ⟨hlt, index, hlocal, rfl⟩] at hslot
      exact absurd hslot (by simp)
  | ok slot =>
      obtain ⟨hlt, index, hlocal, rfl⟩ := checkedSlot_eq_ok_iff.mp hslot
      rcases frame with ⟨_ | ⟨top, below⟩, locals⟩
      · simp [bind, Except.bind]
      · constructor
        · intro h
          obtain ⟨rfl, rfl⟩ : _ ∧ _ := by simpa [bind, Except.bind, proceed] using h
          exact ⟨index, top, below, hlocal, hlt, rfl, rfl, rfl⟩
        · rintro ⟨index', value, rest, hlocal', -, hstack, rfl, rfl⟩
          obtain rfl : index = index' := Option.some.inj (hlocal.symm.trans hlocal')
          cases hstack
          rfl

/-- **A step that succeeds is not disturbed by further locals.**  A load or a store that succeeded
found its local among the first ones, and nothing else looks. -/
theorem step_extend (h : step memory id i frame = .ok (next, jump)) (extra : List Int32) :
    step memory id i (frame.extend extra) = .ok (next.extend extra, jump) := by
  cases hload : i.opcode.isLoadLocal with
  | true =>
      obtain ⟨index, value, hlocal, hvalue, rfl, rfl⟩ := (step_load_eq_ok_iff hload).mp h
      obtain ⟨hlt, -⟩ := List.getElem?_eq_some_iff.mp hvalue
      refine (step_load_eq_ok_iff hload).mpr ⟨index, value, hlocal, ?_, rfl, rfl⟩
      rw [Frame.locals_extend, List.getElem?_append_left hlt, hvalue]
  | false =>
      cases hstore : i.opcode.isStoreLocal with
      | true =>
          obtain ⟨index, value, rest, hlocal, hlt, hstack, rfl, rfl⟩ :=
            (step_store_eq_ok_iff hstore).mp h
          refine (step_store_eq_ok_iff hstore).mpr
            ⟨index, value, rest, hlocal, ?_, hstack, ?_, rfl⟩
          · rw [Frame.locals_extend, List.length_append]
            omega
          · rw [Frame.locals_extend, List.set_append_left _ _ hlt]
            rfl
      | false =>
          have hframe : frame.extend extra = { frame with locals := frame.locals ++ extra } := rfl
          rw [hframe, step_withLocals hload hstore, h, Frame.extend,
            locals_of_step hload hstore h]
          rfl

/-- What an instruction that is no branch does depends on its opcode, its literal and its local.
The rest of it, an offset or targets, may differ. -/
theorem step_congr (hop : j.opcode = i.opcode) (hbranch : i.isBranch = false)
    (hliteral : j.literal? = i.literal?) (hlocal : j.local? = i.local?) :
    step memory id j frame = step memory id i frame := by
  have hslot : checkedSlot j frame = checkedSlot i frame := by
    rw [checkedSlot, checkedSlot, hlocal]
  unfold step
  rw [hliteral, hop, hslot]
  cases h : i.opcode with
  | branch kind form => simp [Instruction.isBranch, h] at hbranch
  | _ => rfl

/-- An instruction that is no branch does not jump.  By the cases of a step, most of which
proceed. -/
theorem jump_eq_none_of_step (hbranch : i.isBranch = false)
    (h : step memory id i frame = .ok (next, jump)) : jump = none := by
  unfold step at h
  cases hliteral : i.literal? with
  | some value => simp_all [proceed]
  | none =>
      simp only [hliteral] at h
      rcases frame with ⟨stack, locals⟩
      cases hop : i.opcode <;> simp only [hop] at h
      case branch kind form => simp [Instruction.isBranch, hop] at hbranch
      case ldloc | stloc =>
        cases hslot : checkedSlot i ⟨stack, locals⟩ <;> cases stack <;>
          simp_all [bind, Except.bind, proceed]
      case binary op =>
        rcases stack with _ | ⟨x, _ | ⟨y, rest⟩⟩ <;> cases op <;>
          simp_all [stepBinary, proceed]
      case dup | pop | ldindI4 => cases stack <;> simp_all [proceed]
      all_goals simp_all [proceed]

/-- A jump goes where the instruction says, or there is none.  Of the branches only `br` and the two
modelled comparisons can jump. -/
theorem jump_eq_of_step (h : step memory id i frame = .ok (next, jump)) :
    jump = none ∨ jump = i.branchTarget? := by
  cases hbranch : i.isBranch with
  | false => exact Or.inl (jump_eq_none_of_step hbranch h)
  | true =>
      obtain ⟨kind, form, hop⟩ := (OpCode.isBranch_iff _).mp hbranch
      have hliteral : i.literal? = none := by simp [Instruction.literal?, hop]
      have compared : ∀ {onEqual}, stepCompare onEqual id i frame = .ok (next, jump) →
          jump = none ∨ jump = i.branchTarget? := by
        intro onEqual h
        obtain ⟨x, y, rest, -, -, rfl⟩ := stepCompare_eq_ok_iff.mp h
        split
        · exact Or.inr rfl
        · exact Or.inl rfl
      rw [step, hliteral, hop] at h
      cases kind with
      | br =>
          obtain ⟨-, rfl⟩ : frame = next ∧ i.branchTarget? = jump := by simpa using h
          exact Or.inr rfl
      | beq | bneUn => exact compared h
      | _ =>
          obtain ⟨-, rfl⟩ : frame = next ∧ none = jump := by simpa [proceed] using h
          exact Or.inl rfl

/-- The destination of a branch is among its targets. -/
theorem Instruction.mem_targets_of_branchTarget? {i : Instruction} {id : InstrId}
    (h : i.branchTarget? = some id) : id ∈ i.targets := by
  rcases i with ⟨op, operand, offset⟩
  cases operand with
  | target other =>
      obtain rfl : other = id := Option.some.inj h
      exact List.mem_singleton.mpr rfl
  | _ => exact absurd h (by simp [branchTarget?])

/-- What a step jumps to is named by its instruction. -/
theorem mem_targets_of_step {destination : InstrId}
    (h : step memory id i frame = .ok (next, some destination)) : destination ∈ i.targets := by
  obtain hnone | hbranch := jump_eq_of_step h
  · exact absurd hnone (by simp)
  · exact Instruction.mem_targets_of_branchTarget? hbranch.symm

/-- The evaluator does not see the layout of an instruction. -/
@[simp] theorem step_erased (memory : Memory) (id : InstrId) (i : Instruction) (frame : Frame) :
    step memory id i.erased frame = step memory id i frame := by
  rcases i with ⟨op, operand, offset⟩
  cases op with
  | branch kind form => cases kind <;> rfl
  | _ => rfl

end Step

namespace Evaluator

/-! ### Runs -/

variable {e e' : Evaluator} {target : InstrId}

/-- The evaluator on another body. -/
def withBody (e : Evaluator) (b : MethodBody) : Evaluator := { e with body := b }

@[simp] theorem body_withBody (e : Evaluator) (b : MethodBody) : (e.withBody b).body = b := rfl

@[simp] theorem memory_withBody (e : Evaluator) (b : MethodBody) :
    (e.withBody b).memory = e.memory := rfl

@[simp] theorem budget_withBody (e : Evaluator) (b : MethodBody) :
    (e.withBody b).budget = e.budget := rfl

@[simp] theorem offsetShift_withBody (e : Evaluator) (b : MethodBody) :
    (e.withBody b).offsetShift = e.offsetShift := rfl

/-- **Every step is matched.**  Where an instruction of one body makes a step, the instruction of
the same identity in the other makes it too, and control goes on to the same place, unless in the
first it falls off the end. -/
structure StepsMatch (e e' : Evaluator) : Prop where
  budget : e'.budget = e.budget
  order : e.body.order <+: e'.body.order
  steps : ∀ p id i frame next jump, e.body.idAt? p = some id → e.body.get? id = some i →
    step e.memory id i frame = .ok (next, jump) →
    ∃ j jump', e'.body.get? id = some j ∧ step e'.memory id j frame = .ok (next, jump') ∧
      (e.nextPosition p jump < e.body.length → e'.nextPosition p jump' = e.nextPosition p jump)

theorem StepsMatch.idAt? (h : StepsMatch e e') {p : Nat} {id : InstrId}
    (hid : e.body.idAt? p = some id) : e'.body.idAt? p = some id :=
  MethodBody.idAt?_extend h.order hid

/-- Behind the end of the body nothing is reached. -/
theorem runFrom_of_idAt?_eq_none {p : Nat} (hid : e.body.idAt? p = none) (n : Nat)
    (frame : Frame) : e.runFrom target n p frame = .error .notReached := by
  cases n <;> simp [runFrom, hid]

/-- Without budget a run stops at the first place that it finds. -/
theorem runFrom_zero {p : Nat} {id : InstrId} (hid : e.body.idAt? p = some id) (frame : Frame) :
    e.runFrom target 0 p frame = .error (.budgetExhausted e.budget) := by
  simp [runFrom, hid]

/-- One step, and the rest of the run. -/
theorem runFrom_succ {p : Nat} {id : InstrId} (hid : e.body.idAt? p = some id) (n : Nat)
    (frame : Frame) :
    e.runFrom target (n + 1) p frame =
      if id = target then .ok frame
      else match e.body.get? id with
        | none => .error .notReached
        | some i =>
          match step e.memory id i frame with
          | .error reason => .error reason
          | .ok (next, jump) => e.runFrom target n (e.nextPosition p jump) next := by
  rewrite [runFrom, hid]
  rfl

/-- A run that reaches its target is inside the body to begin with. -/
theorem lt_length_of_runFrom {n p : Nat} {frame final : Frame}
    (h : e.runFrom target n p frame = .ok final) : p < e.body.length := by
  by_contra hp
  rw [runFrom_of_idAt?_eq_none (MethodBody.idAt?_eq_none_iff.mpr (by omega))] at h
  exact absurd h (by simp)

/-- **Runs are matched if steps are.**  Further locals ride along.  By induction on the budget; a
step that would leave the first body by its end cannot be part of a run that reaches its target. -/
theorem runFrom_extend (hmatch : StepsMatch e e') (extra : List Int32) {n p : Nat}
    {frame final : Frame} (h : e.runFrom target n p frame = .ok final) :
    e'.runFrom target n p (frame.extend extra) = .ok (final.extend extra) := by
  -- By induction on the budget.  A run that succeeds is inside the body before every step, and that
  -- is the condition under which the next places agree.
  induction n generalizing p frame with
  | zero =>
      obtain ⟨id, hid⟩ := MethodBody.exists_idAt? (lt_length_of_runFrom h)
      rw [runFrom_zero hid] at h
      exact absurd h (by simp)
  | succ n ih =>
      obtain ⟨id, hid⟩ := MethodBody.exists_idAt? (lt_length_of_runFrom h)
      rw [runFrom_succ hid] at h
      rw [runFrom_succ (hmatch.idAt? hid)]
      by_cases htarget : id = target
      · rw [if_pos htarget] at h ⊢
        rw [Except.ok.inj h]
      · rw [if_neg htarget] at h ⊢
        cases hi : e.body.get? id with
        | none => simp [hi] at h
        | some i =>
            simp only [hi] at h
            cases hstep : step e.memory id i frame with
            | error reason => simp [hstep] at h
            | ok result =>
                obtain ⟨next, jump⟩ := result
                simp only [hstep] at h
                obtain ⟨j, jump', hj, hstep', hnext⟩ :=
                  hmatch.steps p id i frame next jump hid hi hstep
                simp only [hj, step_extend hstep' extra, hnext (lt_length_of_runFrom h)]
                exact ih h

/-! ### Queries -/

/-- A known stack value is on top of the stack of a run from the start that reaches its target. -/
theorem peekStack_eq_known_iff {v : Int32} :
    e.peekStack target = .known v ↔
      target ∈ e.body.order ∧ ∃ final rest,
        e.runFrom target e.budget 0 ⟨[], e.zeroLocals⟩ = .ok final ∧ final.stack = v :: rest := by
  rw [← MethodBody.isLive_iff, peekStack, run]
  cases hlive : e.body.isLive target with
  | false => simp [Evaluated.ofExcept, bind, Except.bind]
  | true =>
      cases hrun : e.runFrom target e.budget 0 ⟨[], e.zeroLocals⟩ with
      | error reason => simp [Evaluated.ofExcept, bind, Except.bind]
      | ok final =>
          rcases final with ⟨_ | ⟨top, rest⟩, locals⟩ <;>
            simp [Evaluated.ofExcept, bind, Except.bind]

/-- A known local is found in a run from the start too, but from the seeded locals.  The local has
to be declared. -/
theorem resolveLocal_eq_known_iff {index : UInt16} {v : Int32} :
    e.resolveLocal target index = .known v ↔
      index.toNat < e.body.locals.length ∧ target ∈ e.body.order ∧ ∃ final,
        e.runFrom target e.budget 0 ⟨[], e.seededLocals target⟩ = .ok final ∧
          final.locals[index.toNat]? = some v := by
  rw [← MethodBody.isLive_iff, resolveLocal, run]
  by_cases hlt : index.toNat < e.body.locals.length
  · rw [if_neg (by omega)]
    cases hlive : e.body.isLive target with
    | false => simp [Evaluated.ofExcept, bind, Except.bind]
    | true =>
        cases hrun : e.runFrom target e.budget 0 ⟨[], e.seededLocals target⟩ with
        | error reason => simp [Evaluated.ofExcept, bind, Except.bind]
        | ok final =>
            cases hvalue : final.locals[index.toNat]? <;>
              simp [Evaluated.ofExcept, bind, Except.bind, hvalue, hlt]
  · rw [if_pos (by omega)]
    simp [hlt]

/-- **Known answers carry over** from one evaluator to another. -/
structure KeepsKnown (e e' : Evaluator) : Prop where
  peekStack : ∀ target v, e.peekStack target = .known v → e'.peekStack target = .known v
  resolveLocal : ∀ target index v, e.resolveLocal target index = .known v →
    e'.resolveLocal target index = .known v

theorem KeepsKnown.trans {e'' : Evaluator} (h : KeepsKnown e e') (h' : KeepsKnown e' e'') :
    KeepsKnown e e'' :=
  ⟨fun target v hv => h'.peekStack target v (h.peekStack target v hv),
    fun target index v hv => h'.resolveLocal target index v (h.resolveLocal target index v hv)⟩

/-- **Known answers carry over if steps are matched** and runs start from the same locals, or from
more of them.  The locals that come in addition are those by which the runs are extended. -/
theorem StepsMatch.keepsKnown (hmatch : StepsMatch e e')
    (hzero : e.zeroLocals <+: e'.zeroLocals)
    (hseed : ∀ target, e.seededLocals target <+: e'.seededLocals target) :
    KeepsKnown e e' where
  peekStack target v h := by
    obtain ⟨hlive, final, rest, hrun, hstack⟩ := peekStack_eq_known_iff.mp h
    obtain ⟨extra, hextra⟩ := hzero
    refine peekStack_eq_known_iff.mpr ⟨hmatch.order.subset hlive, final.extend extra, rest, ?_,
      hstack⟩
    rw [hmatch.budget, ← hextra]
    exact runFrom_extend hmatch extra hrun
  resolveLocal target index v h := by
    obtain ⟨hlt, hlive, final, hrun, hvalue⟩ := resolveLocal_eq_known_iff.mp h
    obtain ⟨extra, hextra⟩ := hseed target
    have hlength : e.body.locals.length ≤ e'.body.locals.length := by
      simpa [zeroLocals] using hzero.length_le
    refine resolveLocal_eq_known_iff.mpr ⟨by omega, hmatch.order.subset hlive,
      final.extend extra, ?_, ?_⟩
    · rw [hmatch.budget, ← hextra]
      exact runFrom_extend hmatch extra hrun
    · obtain ⟨hbound, -⟩ := List.getElem?_eq_some_iff.mp hvalue
      rw [Frame.locals_extend, List.getElem?_append_left hbound, hvalue]

/-! ### Seeds -/

/-- **Two instructions look alike to the seeding:** they push the same literal, name the same local
and are the same load, store, addition or read. -/
structure SeedsLike (i j : Instruction) : Prop where
  literal : j.literal? = i.literal?
  slot : j.local? = i.local?
  load : j.opcode.isLoadLocal = i.opcode.isLoadLocal
  store : j.opcode.isStoreLocal = i.opcode.isStoreLocal
  read : j.opcode = .ldindI4 ↔ i.opcode = .ldindI4
  add : j.opcode = .binary .add ↔ i.opcode = .binary .add

theorem SeedsLike.refl (i : Instruction) : SeedsLike i i :=
  ⟨rfl, rfl, rfl, rfl, Iff.rfl, Iff.rfl⟩

/-- Layout makes no difference to the seeding. -/
theorem seedsLike_erased (i : Instruction) : SeedsLike i i.erased where
  literal := i.literal?_erased
  slot := i.local?_erased
  load := i.isLoadLocal_toLong
  store := i.isStoreLocal_toLong
  read := by cases h : i.opcode <;> simp [h, OpCode.toLong]
  add := by cases h : i.opcode <;> simp [h, OpCode.toLong]

/-- Instructions that look alike have the same offset local, as the idiom that gives it away is
recognised by nothing but what `SeedsLike` compares. -/
theorem offsetLocal?_congr {is js : List Instruction} (h : List.Forall₂ SeedsLike is js) :
    offsetLocal? js = offsetLocal? is := by
  induction h with
  | nil => rfl
  | @cons i₁ j₁ is js h₁ hrest ih =>
      cases hrest with
      | nil => rfl
      | @cons i₂ j₂ is js h₂ hrest =>
          cases hrest with
          | nil => rfl
          | @cons i₃ j₃ is js h₃ hrest =>
              rw [offsetLocal?, offsetLocal?, ih, h₁.load, h₁.slot]
              simp only [h₂.add, h₃.read]

/-- A return at the end is no part of the idiom that the offset local is read off. -/
theorem offsetLocal?_append_ret (is : List Instruction) :
    offsetLocal? (is ++ [.ret]) = offsetLocal? is := by
  induction is with
  | nil => rfl
  | cons i₁ is ih =>
      rcases is with _ | ⟨i₂, _ | ⟨i₃, is⟩⟩
      · rfl
      · -- The idiom ends in a read, which the return is not.
        simp [offsetLocal?, Instruction.ret, Instruction.bare, Instruction.of]
      · simp only [List.cons_append] at ih ⊢
        rw [offsetLocal?, ih, offsetLocal?]

/-- Live instructions that look alike store the same seeds.  The identities must agree as well,
since seeding stops at the target. -/
theorem seedStores_congr {is js : List (InstrId × Instruction)}
    (h : List.Forall₂ (fun x y => y.1 = x.1 ∧ SeedsLike x.2 y.2) is js)
    {previous previous' : Option Instruction}
    (hprevious : previous'.bind Instruction.literal? = previous.bind Instruction.literal?)
    (locals : List Int32) :
    seedStores target previous' js locals = seedStores target previous is locals := by
  induction h generalizing previous previous' locals with
  | nil => rfl
  | @cons x y is js hxy hrest ih =>
      obtain ⟨id, i⟩ := x
      obtain ⟨id', j⟩ := y
      obtain ⟨rfl, hlike⟩ : id' = id ∧ SeedsLike i j := hxy
      rw [seedStores, seedStores, hlike.store, hlike.slot, hprevious]
      split
      · rfl
      · exact ih (by simpa using hlike.literal) _

/-- A return at the end stores nothing. -/
theorem seedStores_append_ret (id : InstrId) (is : List (InstrId × Instruction))
    (previous : Option Instruction) (locals : List Int32) :
    seedStores target previous (is ++ [(id, .ret)]) locals =
      seedStores target previous is locals := by
  induction is generalizing previous locals with
  | nil =>
      rw [List.nil_append, seedStores, seedStores, seedStores]
      split <;> rfl
  | cons x is ih =>
      obtain ⟨id', i⟩ := x
      rw [List.cons_append, seedStores, seedStores]
      split
      · rfl
      · exact ih _ _

/-- More locals to begin with are more locals in the end, and the first ones are the same. -/
theorem prefix_seedStores {locals locals' : List Int32} (h : locals <+: locals')
    (previous : Option Instruction) (is : List (InstrId × Instruction)) :
    seedStores target previous is locals <+: seedStores target previous is locals' := by
  induction is generalizing previous locals locals' with
  | nil => exact h
  | cons x is ih =>
      obtain ⟨id, i⟩ := x
      rw [seedStores, seedStores]
      split
      · exact h
      · apply ih
        split
        · exact prefix_set h _ _
        · exact h

/-- **The seeds of a body with more locals** extend those of a body with the same idiom and the same
stores. -/
theorem prefix_seededLocals {c : MethodBody}
    (hzero : e.zeroLocals <+: (e.withBody c).zeroLocals)
    (hoffset : offsetLocal? c.instructions = offsetLocal? e.body.instructions)
    (hstores : ∀ locals, seedStores target none c.live locals =
      seedStores target none e.body.live locals) :
    e.seededLocals target <+: (e.withBody c).seededLocals target := by
  unfold seededLocals
  simp only [body_withBody, offsetShift_withBody, hoffset, hstores]
  apply prefix_seedStores
  cases e.offsetShift with
  | none => exact hzero
  | some shift =>
      cases offsetLocal? e.body.instructions with
      | none => exact hzero
      | some index => exact prefix_set hzero _ _

/-! ### Layout is invisible -/

/-- A run goes by identities and by steps, and neither sees layout.  By induction on the budget. -/
theorem runFrom_erased (e : Evaluator) (target : InstrId) (n p : Nat) (frame : Frame) :
    (e.withBody e.body.erased).runFrom target n p frame = e.runFrom target n p frame := by
  induction n generalizing p frame with
  | zero =>
      cases hid : e.body.idAt? p with
      | none => rw [runFrom_of_idAt?_eq_none hid, runFrom_of_idAt?_eq_none (by simpa using hid)]
      | some id =>
          rw [runFrom_zero hid, runFrom_zero (by simpa using hid), budget_withBody]
  | succ n ih =>
      cases hid : e.body.idAt? p with
      | none => rw [runFrom_of_idAt?_eq_none hid, runFrom_of_idAt?_eq_none (by simpa using hid)]
      | some id =>
          have hid' : (e.withBody e.body.erased).body.idAt? p = some id := by simpa using hid
          rw [runFrom_succ hid, runFrom_succ hid']
          simp only [body_withBody, memory_withBody, MethodBody.get?_erased]
          cases e.body.get? id with
          | none => rfl
          | some i =>
              simp only [Option.map_some, step_erased, ih]
              rfl

/-- Nor does the seeding. -/
theorem seededLocals_erased (e : Evaluator) (target : InstrId) :
    (e.withBody e.body.erased).seededLocals target = e.seededLocals target := by
  have hinstructions : List.Forall₂ SeedsLike e.body.instructions e.body.erased.instructions := by
    rw [MethodBody.instructions_erased, List.forall₂_map_right_iff]
    exact List.forall₂_same.mpr fun i _ => seedsLike_erased i
  have hlive : List.Forall₂ (fun x y : InstrId × Instruction => y.1 = x.1 ∧ SeedsLike x.2 y.2)
      e.body.live e.body.erased.live := by
    rw [MethodBody.live_erased, List.forall₂_map_right_iff]
    exact List.forall₂_same.mpr fun x _ => ⟨rfl, seedsLike_erased x.2⟩
  unfold seededLocals
  simp only [body_withBody, offsetLocal?_congr hinstructions]
  exact seedStores_congr hlive rfl _

theorem run_erased (e : Evaluator) (target : InstrId) (locals : List Int32) :
    (e.withBody e.body.erased).run target locals = e.run target locals := by
  simp only [run, body_withBody, budget_withBody, MethodBody.isLive_erased, runFrom_erased]

/-- **The stack at a target does not depend on layout.** -/
@[simp] theorem peekStack_erased (e : Evaluator) (target : InstrId) :
    (e.withBody e.body.erased).peekStack target = e.peekStack target := by
  simp only [peekStack, run_erased]
  rfl

/-- **A local at a target does not depend on layout.** -/
@[simp] theorem resolveLocal_erased (e : Evaluator) (target : InstrId) (index : UInt16) :
    (e.withBody e.body.erased).resolveLocal target index = e.resolveLocal target index := by
  simp only [resolveLocal, run_erased, seededLocals_erased]
  rfl

theorem withBody_withBody (e : Evaluator) (b c : MethodBody) :
    (e.withBody b).withBody c = e.withBody c := rfl

/-- **Bodies with the same code give the same answers,** known or not.  Both are compared with the
body that has no layout. -/
theorem answers_of_erased_eq {b : MethodBody} (h : b.erased = e.body.erased) (target : InstrId) :
    (e.withBody b).peekStack target = e.peekStack target ∧
      ∀ index, (e.withBody b).resolveLocal target index = e.resolveLocal target index := by
  have hswap : (e.withBody b).withBody b.erased = e.withBody e.body.erased := by
    rw [withBody_withBody, h]
  refine ⟨?_, fun index => ?_⟩
  · rw [← peekStack_erased, body_withBody, hswap, peekStack_erased]
  · rw [← resolveLocal_erased, body_withBody, hswap, resolveLocal_erased]

theorem keepsKnown_of_erased_eq {b : MethodBody} (h : b.erased = e.body.erased) :
    KeepsKnown e (e.withBody b) where
  peekStack target _ hv := (answers_of_erased_eq h target).1.trans hv
  resolveLocal target index _ hv := ((answers_of_erased_eq h target).2 index).trans hv

end Evaluator

end CilRepair
