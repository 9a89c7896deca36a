import CilRepair.Body.Basic

/-!
# Sweeps

A pass over the sequence of a body that transforms the instructions one by one and carries a state
along: a running offset, a count of repairs.

## Main definitions

* `sweep`: the pass. At each identity the step sees the state, the identities that follow in
  the sequence, and the instruction as the pass has left it so far.
* `MethodBody.sweep`: the pass over a body.

An identity without a slot is passed over; one that occurs twice is transformed twice.
-/

namespace CilRepair

/-- **The pass over a sequence.** -/
def sweep {σ : Type} (f : σ → List InstrId → Instruction → Instruction × σ) :
    List InstrId → List Instruction → σ → List Instruction × σ
  | [], arena, s => (arena, s)
  | id :: rest, arena, s =>
    match arena[id.slot]? with
    | none => sweep f rest arena s
    | some i => sweep f rest (arena.set id.slot (f s rest i).1) (f s rest i).2

section

variable {σ : Type} (f : σ → List InstrId → Instruction → Instruction × σ)

@[simp] theorem sweep_nil (arena : List Instruction) (s : σ) : sweep f [] arena s = (arena, s) :=
  rfl

/-- A sweep keeps the number of slots. -/
@[simp] theorem length_sweep (order : List InstrId) (arena : List Instruction) (s : σ) :
    (sweep f order arena s).1.length = arena.length := by
  induction order generalizing arena s with
  | nil => rfl
  | cons id rest ih =>
    rw [sweep]
    split <;> simp [ih]

/-- Replacing an entry changes a count by what the entry counts. -/
theorem countP_set_add (p : Instruction → Bool) (arena : List Instruction) (n : Nat)
    (i j : Instruction) (h : arena[n]? = some i) :
    (arena.set n j).countP p + (p i).toNat = arena.countP p + (p j).toNat := by
  induction arena generalizing n with
  | nil => simp at h
  | cons head rest ih =>
    cases n with
    | zero =>
      obtain rfl : head = i := by simpa using h
      rw [List.set_cons_zero, List.countP_cons, List.countP_cons]
      cases p head <;> cases p j <;> simp
    | succ n =>
      have := ih n (by simpa using h)
      rw [List.set_cons_succ, List.countP_cons, List.countP_cons]
      omega

/-- **A sweep conserves what each of its steps conserves:** if every step trades counted
instructions for credit, so does the whole pass. -/
theorem sweep_conserves (p : Instruction → Bool) (credit : σ → Nat)
    (step : ∀ s rest i,
      (p (f s rest i).1).toNat + credit (f s rest i).2 = (p i).toNat + credit s)
    (order : List InstrId) (arena : List Instruction) (s : σ) :
    (sweep f order arena s).1.countP p + credit (sweep f order arena s).2
      = arena.countP p + credit s := by
  induction order generalizing arena s with
  | nil => rfl
  | cons id rest ih =>
    rw [sweep]
    split
    · exact ih _ _
    · next i hi =>
      have hset := countP_set_add p arena id.slot i (f s rest i).1 hi
      have hstep := step s rest i
      rw [ih]
      omega

end

/-- The pass over a body: the body with its new arena, and the final state. -/
def MethodBody.sweep {σ : Type} (b : MethodBody)
    (f : σ → List InstrId → Instruction → Instruction × σ) (s : σ) : MethodBody × σ :=
  let (arena, s) := CilRepair.sweep f b.order b.arena s
  ({ b with arena }, s)

end CilRepair
