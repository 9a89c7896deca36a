import CilRepair.Body.Sweep
import CilRepair.Proofs.Positions

/-!
# Passes over a valid body

`sweep` threads the arena through the sequence, so that in a damaged body a step may see what an
earlier step wrote.  In a valid body it cannot: every slot is visited at most once, and each step
sees the instruction that the body had before the pass.  The result of a pass is then a closed
expression at each place.

* `MethodBody.passState` — the state with which the pass arrives at a place.
* `MethodBody.at?_sweep` — what a pass leaves at a place.
* `MethodBody.sweep_snd` — its final state; `sweep_snd_eq_iff` says when it is the initial one.
* `MethodBody.sweep_eq_self` — a pass that changes nothing at any place changes nothing.

## Design notes

A pass is a fold over the sequence that writes while it reads.  `stateAt` computes the states from
the arena before the pass, and the two lemmas about a slot and about the final state show that this
is right when no slot is visited twice.  From then on a pass is a map with a state, place by place,
and no proof about a particular pass does an induction.

The step is a parameter throughout.  What a step keeps of every instruction or of every state the
pass keeps, in any body, valid or not; what is left at a place is only known in a valid one.
-/

namespace CilRepair

variable {σ : Type} (f : σ → List InstrId → Instruction → Instruction × σ)

/-- **The state with which a pass arrives at a place,** read off the arena before the pass. -/
def stateAt (arena : List Instruction) : List InstrId → σ → Nat → σ
  | _, s, 0 => s
  | [], s, _ + 1 => s
  | id :: rest, s, p + 1 =>
    match arena[id.slot]? with
    | none => stateAt arena rest s p
    | some i => stateAt arena rest (f s rest i).2 p

theorem stateAt_zero (arena : List Instruction) (order : List InstrId) (s : σ) :
    stateAt f arena order s 0 = s := by
  rw [stateAt]

/-- One more place is one more step.  The state goes through the sequence from its start, and so the
last step is taken off at its end. -/
theorem stateAt_succ {arena : List Instruction} {order : List InstrId} {p : Nat} {id : InstrId}
    {i : Instruction} (hid : order[p]? = some id) (hi : arena[id.slot]? = some i) (s : σ) :
    stateAt f arena order s (p + 1) =
      (f (stateAt f arena order s p) (order.drop (p + 1)) i).2 := by
  induction order generalizing p s with
  | nil => simp at hid
  | cons head rest ih =>
      cases p with
      | zero =>
          obtain rfl : head = id := by simpa using hid
          simp only [stateAt, hi, List.drop_succ_cons, List.drop_zero]
      | succ p =>
          have hid : rest[p]? = some id := by simpa using hid
          rw [stateAt, stateAt, List.drop_succ_cons]
          cases arena[head.slot]? with
          | none => exact ih hid s
          | some j => exact ih hid _

/-- A slot outside the sequence does not influence the states.  By induction on the places, none of
which reads that slot. -/
theorem stateAt_set {arena : List Instruction} {order : List InstrId} {id : InstrId}
    (hid : id ∉ order) (j : Instruction) (s : σ) (p : Nat) :
    stateAt f (arena.set id.slot j) order s p = stateAt f arena order s p := by
  induction order generalizing s p with
  | nil => cases p <;> rfl
  | cons head rest ih =>
      obtain ⟨hhead, hrest⟩ := List.ne_and_not_mem_of_not_mem_cons hid
      cases p with
      | zero => rw [stateAt_zero, stateAt_zero]
      | succ p =>
          have hslot : id.slot ≠ head.slot := fun h => hhead (InstrId.slot_injective h)
          rw [stateAt, stateAt, List.getElem?_set_ne hslot]
          cases arena[head.slot]? with
          | none => exact ih hrest s p
          | some i => exact ih hrest _ p

/-- A pass leaves the slots that it does not visit. -/
theorem getElem?_sweep_of_ne {order : List InstrId} {n : Nat} (hn : ∀ id ∈ order, id.slot ≠ n)
    (arena : List Instruction) (s : σ) : (sweep f order arena s).1[n]? = arena[n]? := by
  induction order generalizing arena s with
  | nil => rfl
  | cons head rest ih =>
      have hrest : ∀ id ∈ rest, id.slot ≠ n := fun id h => hn id (List.mem_cons_of_mem _ h)
      rw [sweep]
      split
      · exact ih hrest arena s
      · rw [ih hrest, List.getElem?_set_ne (hn head List.mem_cons_self)]

/-- An identity that is not in the sequence shares its slot with none that is. -/
theorem slot_ne_of_notMem {order : List InstrId} {id : InstrId} (hid : id ∉ order) :
    ∀ x ∈ order, x.slot ≠ id.slot := by
  intro x hx h
  exact hid (InstrId.slot_injective h ▸ hx)

/-- **What a pass leaves in a slot that it visits once.**  By induction on the sequence; what comes
later does not visit the slot again and leaves it. -/
theorem getElem?_sweep {order : List InstrId} (hnodup : order.Nodup) {arena : List Instruction}
    {p : Nat} {id : InstrId} {i : Instruction} (hid : order[p]? = some id)
    (hi : arena[id.slot]? = some i) (s : σ) :
    (sweep f order arena s).1[id.slot]? =
      some (f (stateAt f arena order s p) (order.drop (p + 1)) i).1 := by
  induction order generalizing arena p s with
  | nil => simp at hid
  | cons head rest ih =>
      obtain ⟨hhead, hrest⟩ := List.nodup_cons.mp hnodup
      cases p with
      | zero =>
          obtain rfl : head = id := by simpa using hid
          obtain ⟨hlt, -⟩ := List.getElem?_eq_some_iff.mp hi
          -- The slot is written at once, and the rest of the pass does not come back to it.
          rw [sweep, hi, stateAt_zero]
          dsimp only
          rw [getElem?_sweep_of_ne f (slot_ne_of_notMem hhead), List.getElem?_set_self hlt]
          rfl
      | succ p =>
          have hid : rest[p]? = some id := by simpa using hid
          have hslot : head.slot ≠ id.slot :=
            fun h => hhead (InstrId.slot_injective h ▸ List.mem_of_getElem? hid)
          rw [sweep, stateAt, List.drop_succ_cons]
          cases arena[head.slot]? with
          | none => exact ih hrest hid hi s
          | some j =>
              -- Neither the slot nor the states on the way to it see what the head writes.
              dsimp only
              rw [ih hrest hid (by rw [List.getElem?_set_ne hslot, hi]), stateAt_set f hhead]

/-- **The final state of a pass** is the state behind the last place. -/
theorem snd_sweep {order : List InstrId} (hnodup : order.Nodup) (arena : List Instruction)
    (s : σ) : (sweep f order arena s).2 = stateAt f arena order s order.length := by
  induction order generalizing arena s with
  | nil => rfl
  | cons head rest ih =>
      obtain ⟨hhead, hrest⟩ := List.nodup_cons.mp hnodup
      rw [sweep, List.length_cons, stateAt]
      cases arena[head.slot]? with
      | none => exact ih hrest arena s
      | some i => rw [ih hrest, stateAt_set f hhead]

/-- A view of instructions that no step changes is not changed by the pass.  It is a statement about
the whole arena, dead slots included. -/
theorem map_sweep {α : Type} (view : Instruction → α)
    (hstep : ∀ s rest i, view (f s rest i).1 = view i) (order : List InstrId)
    (arena : List Instruction) (s : σ) :
    (sweep f order arena s).1.map view = arena.map view := by
  induction order generalizing arena s with
  | nil => rfl
  | cons head rest ih =>
      rw [sweep]
      split
      · exact ih arena s
      · next i hi =>
          obtain ⟨hlt, hget⟩ := List.getElem?_eq_some_iff.mp hi
          rw [ih, List.map_set, hstep, ← hget, ← List.getElem_map view, List.set_getElem_self]
          simpa using hlt

/-- A view of states that no step changes is not changed by the pass. -/
theorem view_snd_sweep {α : Type} (view : σ → α)
    (hstep : ∀ s rest i, view (f s rest i).2 = view s) (order : List InstrId)
    (arena : List Instruction) (s : σ) : view (sweep f order arena s).2 = view s := by
  induction order generalizing arena s with
  | nil => rfl
  | cons head rest ih =>
      rw [sweep]
      split
      · exact ih arena s
      · rw [ih, hstep]

namespace MethodBody

variable {b : MethodBody} {p : Nat} {i : Instruction} (s : σ)

/-- The state with which a pass over a body arrives at a place. -/
def passState (b : MethodBody) (s : σ) (p : Nat) : σ := stateAt f b.arena b.order s p

@[simp] theorem passState_zero (b : MethodBody) : b.passState f s 0 = s := stateAt_zero f _ _ s

/-- The state at the next place is what the step at this place leaves. -/
theorem passState_succ (h : b.at? p = some i) :
    b.passState f s (p + 1) = (f (b.passState f s p) (b.order.drop (p + 1)) i).2 := by
  obtain ⟨id, hid, hi⟩ := at?_eq_some_iff.mp h
  exact stateAt_succ f hid hi s

/-! ### What a pass keeps -/

@[simp] theorem order_sweep (b : MethodBody) : (b.sweep f s).1.order = b.order := rfl

@[simp] theorem length_code_sweep (b : MethodBody) : (b.sweep f s).1.length = b.length := rfl

@[simp] theorem locals_sweep (b : MethodBody) : (b.sweep f s).1.locals = b.locals := rfl

@[simp] theorem handlers_sweep (b : MethodBody) : (b.sweep f s).1.handlers = b.handlers := rfl

@[simp] theorem idAt?_sweep (b : MethodBody) (p : Nat) :
    (b.sweep f s).1.idAt? p = b.idAt? p := rfl

@[simp] theorem length_arena_sweep (b : MethodBody) :
    (b.sweep f s).1.arena.length = b.arena.length := length_sweep f b.order b.arena s

/-- A pass keeps the sequence and the number of slots, and so it keeps validity. -/
theorem ArenaValid.sweep (hb : b.ArenaValid) : (b.sweep f s).1.ArenaValid where
  slot_lt id h := by
    rw [length_arena_sweep]
    exact hb.slot_lt id h
  nodup := hb.nodup

/-! ### What a pass does -/

/-- **What a pass leaves at a place:** what the step makes of the instruction that was there before
the pass, in the state with which the pass arrives. -/
theorem at?_sweep (hb : b.ArenaValid) (h : b.at? p = some i) :
    (b.sweep f s).1.at? p =
      some (f (b.passState f s p) (b.order.drop (p + 1)) i).1 := by
  obtain ⟨id, hid, hi⟩ := at?_eq_some_iff.mp h
  exact at?_eq_some_iff.mpr ⟨id, hid, getElem?_sweep f hb.nodup hid hi s⟩

/-- The places of a pass are those of the body. -/
theorem at?_sweep_eq_map (hb : b.ArenaValid) (p : Nat) :
    (b.sweep f s).1.at? p = (b.at? p).map fun i =>
      (f (b.passState f s p) (b.order.drop (p + 1)) i).1 := by
  cases hi : b.at? p with
  | some i => exact at?_sweep f s hb hi
  | none =>
      have hend : b.length ≤ p := by
        by_contra hp
        obtain ⟨i, hi'⟩ := hb.exists_at? (Nat.lt_of_not_le hp)
        simp [hi'] at hi
      rw [at?, idAt?_sweep, idAt?_eq_none_iff.mpr hend]
      rfl

theorem sweep_snd (hb : b.ArenaValid) : (b.sweep f s).2 = b.passState f s b.length :=
  snd_sweep f hb.nodup b.arena s

/-- A state that only quiet steps leave idle is idle at a place if all steps before were quiet.  By
induction on the place. -/
theorem passState_eq_iff (hb : b.ArenaValid) {idle : σ} {quiet : Nat → Instruction → Prop}
    (hstep : ∀ s p i, b.at? p = some i →
      ((f s (b.order.drop (p + 1)) i).2 = idle ↔ s = idle ∧ quiet p i))
    (hp : p ≤ b.length) :
    b.passState f idle p = idle ↔ ∀ q i, q < p → b.at? q = some i → quiet q i := by
  induction p with
  | zero => simp
  | succ p ih =>
      obtain ⟨i, hi⟩ := hb.exists_at? (show p < b.length by omega)
      rw [passState_succ f idle hi, hstep _ p i hi, ih (by omega)]
      constructor
      · rintro ⟨hbefore, hhere⟩ q j hq hj
        rcases Nat.lt_succ_iff_lt_or_eq.mp hq with hlt | rfl
        · exact hbefore q j hlt hj
        · obtain rfl : i = j := Option.some.inj (hi.symm.trans hj)
          exact hhere
      · intro h
        exact ⟨fun q j hq => h q j (by omega), h p i (Nat.lt_succ_self p) hi⟩

/-- **A pass ends idle exactly if every step was quiet.**  Reports of repair and counts of a round
are empty in this sense. -/
theorem sweep_snd_eq_iff (hb : b.ArenaValid) {idle : σ} {quiet : Nat → Instruction → Prop}
    (hstep : ∀ s p i, b.at? p = some i →
      ((f s (b.order.drop (p + 1)) i).2 = idle ↔ s = idle ∧ quiet p i)) :
    (b.sweep f idle).2 = idle ↔ ∀ p i, b.at? p = some i → quiet p i := by
  rw [sweep_snd f idle hb, passState_eq_iff f hb hstep (Nat.le_refl _)]
  exact ⟨fun h p i hi => h p i (at?_lt hi) hi, fun h p i _ hi => h p i hi⟩

/-- **A pass that changes nothing at any place changes nothing.**  Live slots are read off their
places, and a pass does not write to the others. -/
theorem sweep_eq_self (hb : b.ArenaValid)
    (hstep : ∀ p i, b.at? p = some i →
      (f (b.passState f s p) (b.order.drop (p + 1)) i).1 = i) :
    (b.sweep f s).1 = b := by
  have harena : (CilRepair.sweep f b.order b.arena s).1 = b.arena := by
    apply List.ext_getElem?
    intro n
    -- A slot on the sequence is written with what it held, and no other slot is written.
    by_cases hn : ∃ id ∈ b.order, id.slot = n
    · obtain ⟨id, hid, rfl⟩ := hn
      obtain ⟨p, hp⟩ := mem_order_iff.mp hid
      obtain ⟨i, hi⟩ := hb.exists_get? hid
      rw [getElem?_sweep f hb.nodup hp hi s]
      exact (congrArg some (hstep p i (at?_eq_some_iff.mpr ⟨id, hp, hi⟩))).trans hi.symm
    · push Not at hn
      exact getElem?_sweep_of_ne f hn b.arena s
  calc (b.sweep f s).1 = { b with arena := (CilRepair.sweep f b.order b.arena s).1 } := rfl
    _ = b := by rw [harena]

end MethodBody

end CilRepair
