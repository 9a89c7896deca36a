import Mathlib
import CilRepair.Body.Edit

/-!
# Places in a valid body

In a body whose arena is valid the sequence names each slot at most once, so an identity has one
place and a place has one instruction.  This file is the dictionary between the three ways of
naming a live instruction: its place, its identity, and membership in the list of instructions.

* `arenaFault?_eq_none_iff` — the check of the arena decides validity.
* `position?_eq_some_iff`, `lastPosition?_eq_some_iff` — both searches invert `idAt?`.
* `ArenaValid.exists_at?`, `mem_instructions_iff` — every place holds an instruction, and these are
  all the live ones.
* `endsTerminal_iff` — the test of the last instruction, read off its place.
* `ArenaValid.push` — a new instruction keeps the arena valid while identities are left.
* `crowded`, `fresh_crowded` — bodies in which none is left, and the one that is given out again.

Everything else about bodies is stated at places, because a pass over the sequence, a layout and a
run of the evaluator all go by place.

## Design notes

The executable check keeps a list of what it has seen and stops at the first offence.  `ArenaValid`
says what it looks for instead, and is decided by it; every later proof is about the predicate, and
the check comes back only in statements about what a caller has to test.

Both searches for an identity are needed, since the code uses both: one for replacements and one for
jumps, handlers and displacements.  In a valid body they agree, and the lemmas that say so are what
keeps the difference out of all other proofs.

The end of the identities is not excluded by a hypothesis on bodies, for the check allows any number
of dead slots.  It is a bound on the arena, stated where a slot is added, and the bodies at the end
of this file are there to show that the statements which have that bound need it.
-/

namespace CilRepair

theorem InstrId.slot_injective : Function.Injective InstrId.slot := by
  rintro ⟨x⟩ ⟨y⟩ h
  exact congrArg InstrId.mk (UInt32.toNat_inj.mp h)

/-- The identity that an instruction gets when there are `n` slots before it. -/
def InstrId.nth (n : Nat) : InstrId := ⟨UInt32.ofNat n⟩

theorem InstrId.slot_nth {n : Nat} (h : n < UInt32.size) : (nth n).slot = n :=
  UInt32.toNat_ofNat_of_lt' h

/-- Slots within the range have different identities. -/
theorem InstrId.nth_inj {m n : Nat} (hm : m < UInt32.size) (hn : n < UInt32.size)
    (h : nth m = nth n) : m = n := by
  have hslot := congrArg slot h
  rwa [slot_nth hm, slot_nth hn] at hslot

/-- The search from the end finds the place of an identity that occurs once, which is then the place
that a search from the front would have found. -/
theorem lastIndexOf?_eq_some_iff {ids : List InstrId} (hnodup : ids.Nodup) {id : InstrId}
    {p : Nat} : lastIndexOf? id ids = some p ↔ ids[p]? = some id := by
  induction ids generalizing p with
  | nil => simp [lastIndexOf?]
  | cons head rest ih =>
      obtain ⟨hhead, hrest⟩ := List.nodup_cons.mp hnodup
      have ih := fun {q} => ih hrest (p := q)
      rw [lastIndexOf?]
      -- The search prefers a later occurrence; without duplicates there is none to prefer.
      cases hlast : lastIndexOf? id rest with
      | some q =>
          have hq : rest[q]? = some id := ih.mp hlast
          have hne : head ≠ id := by
            rintro rfl
            exact hhead (List.mem_of_getElem? hq)
          cases p with
          | zero => simp [hne]
          | succ p =>
              rw [List.getElem?_cons_succ, ← ih, hlast]
              simp
      | none =>
          have hnone : ∀ q : Nat, rest[q]? ≠ some id := fun q hq => by
            simp [ih.mpr hq] at hlast
          cases p with
          | zero => by_cases heq : head = id <;> simp [heq]
          | succ p => by_cases heq : head = id <;> simp [heq, hnone p]

namespace MethodBody

variable {b c : MethodBody} {id : InstrId} {p q : Nat} {i : Instruction}

/-! ### Validity -/

/-- The search for an offence finds none if every identity has a slot and is new: neither seen
before the search began nor met twice in what is searched. -/
theorem faultIn?_eq_none_iff {size : Nat} {seen rest : List InstrId} :
    faultIn? size seen rest = none ↔
      (∀ id ∈ rest, id.slot < size ∧ id ∉ seen) ∧ rest.Nodup := by
  induction rest generalizing seen with
  | nil => simp [faultIn?]
  | cons id rest ih =>
      rw [faultIn?, List.forall_mem_cons, List.nodup_cons]
      by_cases houtside : size ≤ id.slot
      · have hslot : ¬ id.slot < size := by omega
        simp [houtside, hslot]
      · by_cases hseen : id ∈ seen
        · simp [houtside, hseen]
        · have hslot : id.slot < size := by omega
          simp only [houtside, List.contains_iff_mem, hseen, if_false, ih, hslot,
            not_false_eq_true, and_self, true_and]
          -- To be new among `id :: seen` is to be new among `seen` and not to repeat `id`.
          constructor
          · rintro ⟨hrest, hnodup⟩
            refine ⟨fun x hx => ⟨(hrest x hx).1, ?_⟩, fun hid => ?_, hnodup⟩
            · exact fun hx' => (hrest x hx).2 (List.mem_cons_of_mem _ hx')
            · exact (hrest id hid).2 List.mem_cons_self
          · rintro ⟨hrest, hid, hnodup⟩
            refine ⟨fun x hx => ⟨(hrest x hx).1, fun hx' => ?_⟩, hnodup⟩
            rcases List.mem_cons.mp hx' with rfl | hx'
            · exact hid hx
            · exact (hrest x hx).2 hx'

/-- **The check of the arena finds no fault exactly in a valid body.** -/
theorem arenaFault?_eq_none_iff : b.arenaFault? = none ↔ b.ArenaValid := by
  rw [arenaFault?, faultIn?_eq_none_iff]
  constructor
  · rintro ⟨hslots, hnodup⟩
    exact ⟨fun id hid => (hslots id hid).1, hnodup⟩
  · intro h
    exact ⟨fun id hid => ⟨h.slot_lt id hid, List.not_mem_nil⟩, h.nodup⟩

instance (b : MethodBody) : Decidable b.ArenaValid :=
  decidable_of_iff (b.arenaFault? = none) arenaFault?_eq_none_iff

/-! ### Places and identities -/

theorem mem_order_iff : id ∈ b.order ↔ ∃ p, b.idAt? p = some id := List.mem_iff_getElem?

theorem isLive_iff : b.isLive id = true ↔ id ∈ b.order := List.contains_iff_mem

theorem idAt?_lt (h : b.idAt? p = some id) : p < b.length := by
  obtain ⟨hp, -⟩ := List.getElem?_eq_some_iff.mp h
  exact hp

theorem exists_idAt? (hp : p < b.length) : ∃ id, b.idAt? p = some id :=
  ⟨b.order.get ⟨p, hp⟩, List.getElem?_eq_getElem hp⟩

theorem idAt?_eq_none_iff : b.idAt? p = none ↔ b.length ≤ p := List.getElem?_eq_none_iff

/-- What is appended to a sequence moves no place. -/
theorem idAt?_extend (hpre : b.order <+: c.order) (hid : b.idAt? p = some id) :
    c.idAt? p = some id := by
  obtain ⟨ids, hids⟩ := hpre
  rw [idAt?, ← hids, List.getElem?_append_left (idAt?_lt hid)]
  exact hid

/-- An identity has one place, since the sequence names it once. -/
theorem ArenaValid.idAt?_inj (hb : b.ArenaValid) (hp : b.idAt? p = some id)
    (hq : b.idAt? q = some id) : p = q := by
  obtain ⟨hpl, hpv⟩ := List.getElem?_eq_some_iff.mp hp
  obtain ⟨hql, hqv⟩ := List.getElem?_eq_some_iff.mp hq
  exact (hb.nodup.getElem_inj_iff).mp (hpv.trans hqv.symm)

/-- The search for the last place finds the place. -/
theorem lastPosition?_eq_some_iff (hb : b.ArenaValid) :
    b.lastPosition? id = some p ↔ b.idAt? p = some id :=
  lastIndexOf?_eq_some_iff hb.nodup

/-- The search for the first place finds the same one.  An identity has one place in a valid body,
so it does not matter from which end it is searched. -/
theorem position?_eq_some_iff (hb : b.ArenaValid) :
    b.position? id = some p ↔ b.idAt? p = some id := by
  rw [position?, List.findIdx?_eq_some_iff_getElem]
  constructor
  · rintro ⟨hp, heq, -⟩
    exact List.getElem?_eq_some_iff.mpr ⟨hp, eq_of_beq heq⟩
  · intro h
    obtain ⟨hp, heq⟩ := List.getElem?_eq_some_iff.mp h
    refine ⟨hp, beq_iff_eq.mpr heq, fun q hq => ?_⟩
    have hne : b.order[q] ≠ id := fun hqv =>
      absurd ((hb.nodup.getElem_inj_iff).mp (hqv.trans heq.symm)) (by omega)
    simpa using hne

theorem lastPosition?_isSome_iff (hb : b.ArenaValid) :
    (b.lastPosition? id).isSome = true ↔ id ∈ b.order := by
  simp only [Option.isSome_iff_exists, lastPosition?_eq_some_iff hb, mem_order_iff]

/-! ### Places and instructions -/

theorem ArenaValid.exists_get? (hb : b.ArenaValid) (h : id ∈ b.order) :
    ∃ i, b.get? id = some i :=
  ⟨b.arena.get ⟨id.slot, hb.slot_lt id h⟩, List.getElem?_eq_getElem (hb.slot_lt id h)⟩

theorem at?_eq_some_iff : b.at? p = some i ↔ ∃ id, b.idAt? p = some id ∧ b.get? id = some i :=
  Option.bind_eq_some_iff

theorem at?_of_idAt? (h : b.idAt? p = some id) : b.at? p = b.get? id := by
  rw [at?, h, Option.bind_some]

theorem at?_lt (h : b.at? p = some i) : p < b.length := by
  obtain ⟨id, hid, -⟩ := at?_eq_some_iff.mp h
  exact idAt?_lt hid

/-- Every place of a valid body holds an instruction. -/
theorem ArenaValid.exists_at? (hb : b.ArenaValid) (hp : p < b.length) :
    ∃ i, b.at? p = some i := by
  obtain ⟨id, hid⟩ := exists_idAt? hp
  obtain ⟨i, hi⟩ := hb.exists_get? (mem_order_iff.mpr ⟨p, hid⟩)
  exact ⟨i, at?_eq_some_iff.mpr ⟨id, hid, hi⟩⟩

/-- The instructions of a body are those at its places. -/
theorem mem_instructions_iff : i ∈ b.instructions ↔ ∃ p, b.at? p = some i := by
  simp only [instructions, List.mem_filterMap, at?_eq_some_iff]
  constructor
  · rintro ⟨id, hid, hi⟩
    obtain ⟨p, hp⟩ := mem_order_iff.mp hid
    exact ⟨p, id, hp, hi⟩
  · rintro ⟨p, id, hp, hi⟩
    exact ⟨id, mem_order_iff.mpr ⟨p, hp⟩, hi⟩

/-- In a valid body the live instructions are those of the sequence, one for each place. -/
theorem live_eq_map (hb : b.ArenaValid) :
    b.live = b.order.map fun id => (id, (b.get? id).getD .nop) := by
  rw [live, ← List.filterMap_eq_map]
  refine List.filterMap_congr fun id hid => ?_
  obtain ⟨i, hi⟩ := hb.exists_get? hid
  simp [hi]

/-- **An entry of that list** is an identity of the sequence with its instruction. -/
theorem getElem?_live_iff (hb : b.ArenaValid) :
    b.live[p]? = some (id, i) ↔ b.idAt? p = some id ∧ b.get? id = some i := by
  rw [live_eq_map hb, List.getElem?_map, Option.map_eq_some_iff]
  constructor
  · rintro ⟨other, hother, heq⟩
    obtain ⟨j, hj⟩ := hb.exists_get? (List.mem_of_getElem? hother)
    simp only [hj, Option.getD_some, Prod.mk.injEq] at heq
    obtain ⟨rfl, rfl⟩ := heq
    exact ⟨hother, hj⟩
  · rintro ⟨hid, hi⟩
    exact ⟨id, hid, by rw [hi, Option.getD_some]⟩

/-- No identity is lost on the way to the list of live instructions. -/
theorem map_fst_live (hb : b.ArenaValid) : b.live.map Prod.fst = b.order := by
  rw [live_eq_map hb, List.map_map]
  exact List.map_id b.order

/-- The last instruction is at the place before the length. -/
theorem last?_eq_idAt? (b : MethodBody) : b.last? = b.idAt? (b.length - 1) :=
  List.getLast?_eq_getElem?

/-- The test of the end looks at the last place, and fails where there is none. -/
theorem endsTerminal_iff :
    b.endsTerminal = true ↔ ∃ i, b.at? (b.length - 1) = some i ∧ i.isTerminal = true := by
  rw [endsTerminal, last?_eq_idAt?, ← at?]
  cases b.at? (b.length - 1) <;> simp

/-! ### A new instruction at the end -/

@[simp] theorem order_push (b : MethodBody) (i : Instruction) :
    (b.push i).order = b.order ++ [b.fresh] := rfl

@[simp] theorem arena_push (b : MethodBody) (i : Instruction) :
    (b.push i).arena = b.arena ++ [i] := rfl

/-- The new identity names the new slot as long as identities are left. -/
theorem slot_fresh (hroom : b.arena.length < UInt32.size) : b.fresh.slot = b.arena.length := by
  rw [fresh, InstrId.slot, UInt32.toNat_ofNat_of_lt' hroom]

/-- So it is not live yet. -/
theorem fresh_notMem (hb : b.ArenaValid) (hroom : b.arena.length < UInt32.size) :
    b.fresh ∉ b.order := by
  intro h
  have := hb.slot_lt _ h
  rw [slot_fresh hroom] at this
  exact lt_irrefl _ this

/-- **A new instruction keeps the arena valid,** as long as identities are left.  Its identity is
that of its slot, which no earlier one can name. -/
theorem ArenaValid.push (hb : b.ArenaValid) (hroom : b.arena.length < UInt32.size)
    (i : Instruction) : (b.push i).ArenaValid where
  slot_lt id h := by
    rw [arena_push, List.length_append, List.length_singleton]
    rcases List.mem_append.mp h with h | h
    · exact Nat.lt_succ_of_lt (hb.slot_lt id h)
    · rw [List.mem_singleton.mp h, slot_fresh hroom]
      exact Nat.lt_succ_self _
  nodup := by
    rw [order_push, List.nodup_append]
    refine ⟨hb.nodup, List.nodup_singleton _, fun x hx y hy => ?_⟩
    rintro rfl
    exact fresh_notMem hb hroom (List.mem_singleton.mp hy ▸ hx)

/-- A new instruction moves no place that there was, -/
theorem idAt?_push_of_lt (i : Instruction) (hp : p < b.length) :
    (b.push i).idAt? p = b.idAt? p := List.getElem?_append_left hp

/-- and its own place is the old length. -/
theorem idAt?_push_length (b : MethodBody) (i : Instruction) :
    (b.push i).idAt? b.length = some b.fresh := List.getElem?_concat_length

/-- A slot that there was keeps what it held, -/
theorem get?_push_of_lt (i : Instruction) (h : id.slot < b.arena.length) :
    (b.push i).get? id = b.get? id := List.getElem?_append_left h

/-- and the new one holds the new instruction. -/
theorem get?_push_fresh (i : Instruction) (hroom : b.arena.length < UInt32.size) :
    (b.push i).get? b.fresh = some i := by
  rw [get?, slot_fresh hroom]
  exact List.getElem?_concat_length

/-- At the old places the old instructions stand, -/
theorem at?_push_of_lt (hb : b.ArenaValid) (i : Instruction) (hp : p < b.length) :
    (b.push i).at? p = b.at? p := by
  obtain ⟨id, hid⟩ := exists_idAt? hp
  have hslot := hb.slot_lt id (mem_order_iff.mpr ⟨p, hid⟩)
  rw [at?_of_idAt? ((idAt?_push_of_lt i hp).trans hid), at?_of_idAt? hid, get?_push_of_lt i hslot]

/-- and the new one is behind them. -/
theorem at?_push_length (i : Instruction) (hroom : b.arena.length < UInt32.size) :
    (b.push i).at? b.length = some i := by
  rw [at?_of_idAt? (idAt?_push_length b i), get?_push_fresh i hroom]

/-! ### When no identity is left -/

/-- **Identities start again behind the last one.**  A slot past the range of identities is given
one that an earlier slot has already, and the check of the arena does not see it coming: a valid
body may have any number of dead slots. -/
theorem fresh_of_length_eq {n : Nat} (h : b.arena.length = UInt32.size + n) :
    b.fresh = InstrId.nth n := by
  rw [fresh, h, InstrId.nth]
  refine congrArg InstrId.mk (UInt32.toNat_inj.mp ?_)
  rw [UInt32.toNat_ofNat', UInt32.toNat_ofNat', UInt32.size, Nat.add_mod_left]

/-- Code in the first slots of an arena whose other slots are dead. -/
def crowded (code : List Instruction) (order : List InstrId) (dead : Nat) : MethodBody where
  arena := code ++ List.replicate dead .nop
  order := order
  locals := []
  handlers := []
  maxStack := 8
  initLocals := true

section Crowded

variable {code : List Instruction} {order : List InstrId} {dead : Nat}

theorem length_arena_crowded :
    (crowded code order dead).arena.length = code.length + dead := by
  rw [crowded, List.length_append, List.length_replicate]

/-- By choosing how many slots are dead, any of the first identities can be made the next one. -/
theorem fresh_crowded {n : Nat} (h : code.length + dead = UInt32.size + n) :
    (crowded code order dead).fresh = InstrId.nth n :=
  fresh_of_length_eq (length_arena_crowded.trans h)

/-- Dead slots do no harm to the sequence: validity asks about the slots that it names. -/
theorem arenaValid_crowded (hslots : ∀ id ∈ order, id.slot < code.length) (hnodup : order.Nodup) :
    (crowded code order dead).ArenaValid where
  slot_lt id hid := by
    rw [length_arena_crowded]
    exact Nat.lt_add_right dead (hslots id hid)
  nodup := hnodup

end Crowded

/-- One live `nop`, and as many dead ones as there are further identities: the next instruction
gets the identity of the live one. -/
def fullBody : MethodBody := crowded [.nop] [⟨0⟩] 4294967295

theorem arenaValid_fullBody : fullBody.ArenaValid := arenaValid_crowded (by decide) (by decide)

theorem fresh_fullBody : fullBody.fresh = ⟨0⟩ := fresh_crowded (n := 0) rfl

end MethodBody

end CilRepair
