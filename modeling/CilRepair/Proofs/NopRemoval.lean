import CilRepair.Proofs.Remapping
import CilRepair.Proofs.Runs

/-!
# Removal of padding keeps answers

A run passes through a `nop` without doing anything, so a body without padding makes the same run in
fewer steps.  A jump into padding is redirected to the end of it, which is where the old run arrives
after passing through.  Two kinds of `nop` have no such end: those with nothing but padding behind
them are kept if something names them and are removed otherwise, and in both cases the run goes on
to fall off the end of the body.

* `MethodBody.find?_padding` — where references to a `nop` move, read off the sequence.
* `MethodBody.not_keeps_of_successor`, `MethodBody.keeps_of_referenced` — what is removed.
* `MethodBody.lastPosition?_unpadded` — a jump arrives at the rank of the place where it arrived.
* `Evaluator.removeNops_keeps_answers` — the answers at what is no `nop` are the same.

## Design notes

The statement is about bodies that may have dangling references and jumps into padding, so the proof
cannot ask for an intact body.  It asks instead what happens to each reference: a dead one stays
dead, a live one moves out of padding if there is an instruction behind, and otherwise the `nop`
that it names is kept, being named.  In each case it arrives at the rank of the place where it
arrived.

With that, the two runs are related by rank alone and have equal frames.  A kept place makes the
same step, and a removed one is a `nop`, at which the new run waits.
-/

namespace CilRepair

open MethodBody Evaluator

/-! ### Where references move -/

namespace MethodBody

/-- Walking back from the end finds the first instruction that is no `nop`.  By induction on the
list. -/
theorem successor_redirects (xs : List (InstrId × Instruction)) :
    (redirects xs).2 = (xs.find? fun x => !x.2.isNop).map Prod.fst := by
  induction xs with
  | nil => rfl
  | cons x xs ih =>
      obtain ⟨id, i⟩ := x
      rw [redirects]
      cases hnop : i.isNop with
      | false => simp [hnop]
      | true =>
          rw [List.find?_cons_of_neg (by simp [hnop]), ← ih]
          cases hsuccessor : (redirects xs).2 <;> simp [hsuccessor]

/-- Only what is in the list is redirected.  By induction on the list, since an entry is only made
for what stands at its head. -/
theorem find?_redirects_of_notMem {xs : List (InstrId × Instruction)} {id : InstrId}
    (hid : id ∉ xs.map Prod.fst) : (redirects xs).1.find? id = none := by
  induction xs with
  | nil => rfl
  | cons x xs ih =>
      obtain ⟨head, i⟩ := x
      obtain ⟨hne, hrest⟩ : id ≠ head ∧ id ∉ xs.map Prod.fst := by simpa using hid
      have ih := ih hrest
      have hlookup : (id == head) = false := beq_false_of_ne hne
      rw [redirects]
      cases i.isNop with
      | false => exact ih
      | true =>
          cases hsuccessor : (redirects xs).2 with
          | none => simpa [hsuccessor] using ih
          | some next => simpa [hsuccessor, Remapping.find?, List.lookup_cons, hlookup] using ih

/-- **A `nop` is redirected to its successor,** and nothing else is redirected.  By induction on the
list; the identities in front are others. -/
theorem find?_redirects {xs : List (InstrId × Instruction)} (hnodup : (xs.map Prod.fst).Nodup)
    {p : Nat} {id : InstrId} {i : Instruction} (h : xs[p]? = some (id, i)) :
    (redirects xs).1.find? id = if i.isNop then (redirects (xs.drop (p + 1))).2 else none := by
  induction xs generalizing p with
  | nil => simp at h
  | cons x xs ih =>
      obtain ⟨head, j⟩ := x
      obtain ⟨hhead, hrest⟩ : head ∉ xs.map Prod.fst ∧ (xs.map Prod.fst).Nodup :=
        List.nodup_cons.mp hnodup
      cases p with
      | zero =>
          obtain ⟨rfl, rfl⟩ : head = id ∧ j = i := by simpa using h
          -- The head is redirected to the successor of the rest, and no later entry is for it.
          have hlater := find?_redirects_of_notMem hhead
          rw [redirects, List.drop_succ_cons, List.drop_zero]
          cases hnop : j.isNop with
          | false => simpa [hnop] using hlater
          | true =>
              cases hsuccessor : (redirects xs).2 with
              | none => simpa [hsuccessor] using hlater
              | some next => simp [hsuccessor, Remapping.find?]
      | succ p =>
          have h : xs[p]? = some (id, i) := by simpa using h
          have hne : id ≠ head := by
            rintro rfl
            exact hhead (List.mem_map.mpr ⟨(id, i), List.mem_of_getElem? h, rfl⟩)
          -- Further on the entry of the head is passed over.
          have hlookup : (id == head) = false := beq_false_of_ne hne
          rw [List.drop_succ_cons, ← ih hrest h, redirects]
          cases j.isNop with
          | false => rfl
          | true =>
              cases hsuccessor : (redirects xs).2 with
              | none => simp [hsuccessor]
              | some next => simp [hsuccessor, Remapping.find?, List.lookup_cons, hlookup]

variable {b : MethodBody} {p q : Nat} {id target : InstrId} {i j : Instruction}

/-- **Where references to padding move.** -/
def padding (b : MethodBody) : Remapping := (redirects b.live).1

/-- A dead reference does not move, -/
theorem find?_padding_of_dead (hb : b.ArenaValid) (hid : id ∉ b.order) :
    b.padding.find? id = none :=
  find?_redirects_of_notMem (by rwa [map_fst_live hb])

/-- a live one does if it names a `nop`, -/
theorem find?_padding_eq (hb : b.ArenaValid) (hid : b.idAt? p = some id)
    (hi : b.get? id = some i) :
    b.padding.find? id = if i.isNop then (redirects (b.live.drop (p + 1))).2 else none := by
  have hnodup : (b.live.map Prod.fst).Nodup := by
    rw [map_fst_live hb]
    exact hb.nodup
  exact find?_redirects hnodup ((getElem?_live_iff hb).mpr ⟨hid, hi⟩)

/-- and not otherwise. -/
theorem find?_padding_of_not_nop (hb : b.ArenaValid) (hid : b.idAt? p = some id)
    (hi : b.get? id = some i) (hnop : i.isNop = false) : b.padding.find? id = none := by
  rw [find?_padding_eq hb hid hi, hnop]
  rfl

/-- **References to a `nop` move to the next instruction that is none,** and stay if there is no
such instruction. -/
theorem find?_padding (hb : b.ArenaValid) (hid : b.idAt? p = some id) (hi : b.get? id = some i)
    (hnop : i.isNop = true) :
    (b.padding.find? id = none ∧ ∀ q j, p < q → b.at? q = some j → j.isNop = true) ∨
    ∃ q next j, p < q ∧ b.padding.find? id = some next ∧ b.idAt? q = some next ∧
      b.get? next = some j ∧ j.isNop = false ∧
      ∀ r k, p ≤ r → r < q → b.at? r = some k → k.isNop = true := by
  -- What stands behind the place is in the rest of the list, at its distance from there.
  have hentry : ∀ {r k}, p < r → b.at? r = some k →
      ∃ next, (b.live.drop (p + 1))[r - (p + 1)]? = some (next, k) := by
    intro r k hpr hk
    obtain ⟨next, hnext, hget⟩ := at?_eq_some_iff.mp hk
    refine ⟨next, ?_⟩
    rw [List.getElem?_drop, show p + 1 + (r - (p + 1)) = r by omega]
    exact (getElem?_live_iff hb).mpr ⟨hnext, hget⟩
  rw [find?_padding_eq hb hid hi, if_pos hnop, successor_redirects]
  cases hfind : (b.live.drop (p + 1)).find? fun x => !x.2.isNop with
  | none =>
      refine Or.inl ⟨rfl, fun q j hpq hj => ?_⟩
      obtain ⟨next, hnext⟩ := hentry hpq hj
      simpa using List.find?_eq_none.mp hfind (next, j) (List.mem_of_getElem? hnext)
  | some x =>
      obtain ⟨next, j⟩ := x
      obtain ⟨hj, n, hn, hget, hbefore⟩ := List.find?_eq_some_iff_getElem.mp hfind
      have hat : b.live[p + 1 + n]? = some (next, j) := by
        rw [← List.getElem?_drop, List.getElem?_eq_some_iff]
        exact ⟨hn, hget⟩
      obtain ⟨hnext, hinstr⟩ := (getElem?_live_iff hb).mp hat
      refine Or.inr ⟨p + 1 + n, next, j, by omega, rfl, hnext, hinstr, by simpa using hj, ?_⟩
      intro r k hpr hrq hk
      rcases Nat.eq_or_lt_of_le hpr with rfl | hlt
      · rw [at?_of_idAt? hid, hi] at hk
        exact Option.some.inj hk ▸ hnop
      · obtain ⟨other, hother⟩ := hentry hlt hk
        obtain ⟨hlt', hval⟩ := List.getElem?_eq_some_iff.mp hother
        have hskipped := hbefore (r - (p + 1)) (by omega)
        simpa [hval] using hskipped

/-- **What a reference has moved to is no `nop`.**  A redirection is made only when the next solid
instruction is found, and it leads there. -/
theorem not_nop_of_find?_padding (hb : b.ArenaValid) (h : b.padding.find? target = some id)
    (hi : b.get? id = some i) : i.isNop = false := by
  have hlive : target ∈ b.order := by
    by_contra hdead
    rw [find?_padding_of_dead hb hdead] at h
    exact absurd h (by simp)
  obtain ⟨p, hp⟩ := mem_order_iff.mp hlive
  obtain ⟨j, hj⟩ := hb.exists_get? hlive
  cases hnop : j.isNop with
  | false =>
      rw [find?_padding_of_not_nop hb hp hj hnop] at h
      exact absurd h (by simp)
  | true =>
      rcases find?_padding hb hp hj hnop with ⟨hnone, -⟩ | ⟨_, next, k, -, hnext, -, hk, hk', -⟩
      · rw [hnone] at h
        exact absurd h (by simp)
      · obtain rfl : next = id := Option.some.inj (hnext.symm.trans h)
        obtain rfl : k = i := Option.some.inj (hk.symm.trans hi)
        exact hk'

/-! ### What is removed -/

/-- The body with its references moved out of the padding. -/
def unpadded (b : MethodBody) : MethodBody := (b.remap b.padding).1

/-- **An identity survives the removal:** it is none of a `nop`, or it is still named. -/
def keeps (b : MethodBody) (id : InstrId) : Bool :=
  match b.unpadded.get? id with
  | some i => !(i.isNop && !b.unpadded.references.contains id)
  | none => true

theorem order_removeNops (b : MethodBody) : b.removeNops.1.order = b.order.filter b.keeps := rfl

theorem ArenaValid.removeNops (hb : b.ArenaValid) : b.removeNops.1.ArenaValid :=
  hb.thin (thins_removeNops b)

/-- What is left in a live slot is the instruction with its references moved. -/
theorem get?_removeNops (hb : b.ArenaValid) (hid : id ∈ b.order) :
    b.removeNops.1.get? id = (b.get? id).map (·.mapTargets b.padding.apply) :=
  get?_remap b.padding hb hid

/-- **Every instruction without the padding was there before:** it was kept, stands at the rank of
its old place, and names what its targets have moved to. -/
theorem exists_of_at?_removeNops (hb : b.ArenaValid) (hj : b.removeNops.1.at? q = some j) :
    ∃ p id i, b.idAt? p = some id ∧ b.get? id = some i ∧ b.keeps id = true ∧
      b.rank b.keeps p = q ∧ j = i.mapTargets b.padding.apply := by
  obtain ⟨id, hid, hget⟩ := at?_eq_some_iff.mp hj
  obtain ⟨p, hp, hkeep, hrank⟩ := exists_idAt?_of_thinned b.order_removeNops hb hid
  rw [get?_removeNops hb (mem_order_iff.mpr ⟨p, hp⟩), Option.map_eq_some_iff] at hget
  obtain ⟨i, hi, rfl⟩ := hget
  exact ⟨p, id, i, hp, hi, hkeep, hrank, rfl⟩

theorem keeps_eq (hb : b.ArenaValid) (hid : id ∈ b.order) (hi : b.get? id = some i) :
    b.keeps id = !(i.isNop && !(b.references.map b.padding.apply).contains id) := by
  simp only [keeps, unpadded, get?_remap b.padding hb hid, hi, Option.map_some,
    Instruction.isNop_mapTargets, references_remap b.padding hb]

theorem keeps_of_not_nop (hb : b.ArenaValid) (hid : id ∈ b.order) (hi : b.get? id = some i)
    (hnop : i.isNop = false) : b.keeps id = true := by
  rw [keeps_eq hb hid hi, hnop]
  rfl

/-- What a reference still names after it has moved is kept. -/
theorem keeps_of_referenced (hb : b.ArenaValid) (hid : id ∈ b.order)
    (htarget : target ∈ b.references) (happly : b.padding.apply target = id) :
    b.keeps id = true := by
  obtain ⟨i, hi⟩ := hb.exists_get? hid
  have hmem : id ∈ b.references.map b.padding.apply := List.mem_map.mpr ⟨target, htarget, happly⟩
  rw [keeps_eq hb hid hi, List.contains_iff_mem.mpr hmem]
  simp

/-- **A `nop` with an instruction behind it is removed.**  All that named it has moved there, and
nothing has moved to a `nop`. -/
theorem not_keeps_of_successor (hb : b.ArenaValid) (hid : b.idAt? p = some id)
    (hi : b.get? id = some i) (hnop : i.isNop = true) (hpq : p < q) (hj : b.at? q = some j)
    (hnot : j.isNop = false) : b.keeps id = false := by
  have hmem : id ∈ b.order := mem_order_iff.mpr ⟨p, hid⟩
  have hredirected : ∃ next, b.padding.find? id = some next := by
    rcases find?_padding hb hid hi hnop with ⟨-, hall⟩ | ⟨_, next, _, -, hfind, -⟩
    · simp [hall q j hpq hj] at hnot
    · exact ⟨next, hfind⟩
  -- Nothing names it any more: a reference that was moved names no `nop`, and one that was not
  -- moved did not name this one.
  have hunnamed : id ∉ b.references.map b.padding.apply := by
    intro hnamed
    obtain ⟨t, -, ht⟩ := List.mem_map.mp hnamed
    cases hfind : b.padding.find? t with
    | none =>
        rw [Remapping.apply, hfind, Option.getD_none] at ht
        obtain ⟨next, hnext⟩ := hredirected
        rw [ht, hnext] at hfind
        exact absurd hfind (by simp)
    | some next =>
        rw [Remapping.apply, hfind, Option.getD_some] at ht
        subst ht
        rw [not_nop_of_find?_padding hb hfind hi] at hnop
        exact absurd hnop (by decide)
  have hcontains : (b.references.map b.padding.apply).contains id = false := by
    rw [← Bool.not_eq_true, List.contains_iff_mem]
    exact hunnamed
  rw [keeps_eq hb hmem hi, hnop, hcontains]
  rfl

/-- **A jump arrives at the rank of the place where it arrived.**  What lies between a `nop` and the
end of its padding is removed and does not separate the two. -/
theorem lastPosition?_unpadded (hb : b.ArenaValid) (htarget : target ∈ b.references) :
    b.removeNops.1.lastPosition? (b.padding.apply target) =
      (b.lastPosition? target).map (b.rank b.keeps) := by
  have hthinned : ∀ {id}, (id ∈ b.order → b.keeps id = true) →
      b.removeNops.1.lastPosition? id = (b.lastPosition? id).map (b.rank b.keeps) :=
    fun hkeep => lastPosition?_thinned b.order_removeNops hb hb.removeNops hkeep
  have hstay : b.padding.find? target = none → b.padding.apply target = target := fun hnone => by
    rw [Remapping.apply, hnone, Option.getD_none]
  by_cases hlive : target ∈ b.order
  · obtain ⟨q, hq⟩ := mem_order_iff.mp hlive
    obtain ⟨j, hj⟩ := hb.exists_get? hlive
    cases hnop : j.isNop with
    | false =>
        rw [hstay (find?_padding_of_not_nop hb hq hj hnop)]
        exact hthinned fun _ => keeps_of_not_nop hb hlive hj hnop
    | true =>
        rcases find?_padding hb hq hj hnop with ⟨hnone, -⟩ |
          ⟨q', next, k, hqq', hfind, hq', hk, hk', hbetween⟩
        · have happly := hstay hnone
          rw [happly]
          exact hthinned fun _ => keeps_of_referenced hb hlive htarget happly
        · -- The jump goes to the end of the padding, and all that lies before that end is removed.
          have happly : b.padding.apply target = next := by
            rw [Remapping.apply, hfind, Option.getD_some]
          have hnext : next ∈ b.order := mem_order_iff.mpr ⟨q', hq'⟩
          have hat : b.at? q' = some k := (at?_of_idAt? hq').trans hk
          have hrank : b.rank b.keeps q' = b.rank b.keeps q := by
            refine rank_eq_of_removed hqq'.le fun r id hqr hrq' hid => ?_
            obtain ⟨l, hl⟩ := hb.exists_get? (mem_order_iff.mpr ⟨r, hid⟩)
            have hl' := hbetween r l hqr hrq' ((at?_of_idAt? hid).trans hl)
            exact not_keeps_of_successor hb hid hl hl' hrq' hat hk'
          rw [happly, hthinned fun _ => keeps_of_not_nop hb hnext hk hk',
            (lastPosition?_eq_some_iff hb).mpr hq', (lastPosition?_eq_some_iff hb).mpr hq,
            Option.map_some, Option.map_some, hrank]
  · rw [hstay (find?_padding_of_dead hb hlive)]
    exact hthinned fun h => absurd h hlive

end MethodBody

/-! ### Runs -/

/-- A `nop` does nothing. -/
theorem step_of_isNop {i : Instruction} (hnop : i.isNop = true) (memory : Memory) (id : InstrId)
    (frame : Frame) : step memory id i frame = .ok (frame, none) := by
  rcases i with ⟨op, operand, offset⟩
  obtain rfl : op = .nop := eq_of_beq hnop
  cases operand <;> rfl

namespace Evaluator

variable {e : Evaluator} {target : InstrId} {i : Instruction}

/-- **A body without padding simulates the body,** each place standing for its rank.  At a `nop`
that is removed the old run moves and the new one stays where it is. -/
theorem simulation_removeNops (hb : e.body.ArenaValid) (hlive : target ∈ e.body.order)
    (hi : e.body.get? target = some i) (hnop : i.isNop = false) :
    Simulation e (e.withBody e.body.removeNops.1) target
      (fun p frame p' frame' => p' = e.body.rank e.body.keeps p ∧ frame' = frame) where
  budget := rfl
  progress := by
    rintro p _ _ frame ⟨rfl, rfl⟩
    have horder := e.body.order_removeNops
    cases hid : e.body.idAt? p with
    | none =>
        have hid' := idAt?_rank_of_none horder hid
        exact .stop .notReached (hid'.trans hid.symm) rfl (stepAt_of_idAt?_eq_none hid _)
          (stepAt_of_idAt?_eq_none hid' _)
    | some id =>
        have hmem : id ∈ e.body.order := mem_order_iff.mpr ⟨p, hid⟩
        obtain ⟨j, hj⟩ := hb.exists_get? hmem
        have hstep := stepAt_eq hid hj frame
        cases hkeep : e.body.keeps id with
        | false =>
            -- A removed instruction is a `nop`, which the old run passes alone.
            have hj' : j.isNop = true := by
              by_contra hj'
              rw [keeps_of_not_nop hb hmem hj (by simpa using hj')] at hkeep
              exact absurd hkeep (by decide)
            have hne : id ≠ target := by
              rintro rfl
              rw [keeps_of_not_nop hb hlive hi hnop] at hkeep
              exact absurd hkeep (by decide)
            rw [step_of_isNop hj'] at hstep
            exact .alone (p + 1) frame id hid hne hstep
              ⟨(rank_succ_of_not_keep hid hkeep).symm, rfl⟩
        | true =>
            have hid' := idAt?_rank horder hid hkeep
            have hj' : e.body.removeNops.1.get? id =
                some (j.mapTargets e.body.padding.apply) := by
              rw [get?_removeNops hb hmem, hj, Option.map_some]
            have hstep' := stepAt_eq (e := e.withBody e.body.removeNops.1) hid' hj' frame
            rw [step_mapTargets, memory_withBody] at hstep'
            cases hresult : step e.memory id j frame with
            | error reason =>
                rw [hresult] at hstep hstep'
                exact .stop reason (hid'.trans hid.symm) rfl hstep hstep'
            | ok result =>
                obtain ⟨next, jump⟩ := result
                rw [hresult] at hstep hstep'
                refine .both _ next _ next (hid'.trans hid.symm) rfl hstep hstep' ⟨?_, rfl⟩
                apply nextPosition_thinned hid hkeep
                cases jump with
                | none => rfl
                | some t =>
                    have ht := mem_references_of_target hmem hj (mem_targets_of_step hresult)
                    exact lastPosition?_unpadded hb ht

/-- **Removal of padding keeps answers.**  Whatever the memory and the budget: what is on the stack
at an instruction that is no `nop`, or why it is not known, is the same without the padding, unless
the budget ran out before.  References may dangle, and jumps may end in padding. -/
theorem removeNops_keeps_answers (e : Evaluator) (hb : e.body.ArenaValid) (target : InstrId)
    (i : Instruction) (hlive : target ∈ e.body.order) (hi : e.body.get? target = some i)
    (hnop : i.isNop = false)
    (h : e.peekStack target ≠ .unknown (.budgetExhausted e.budget)) :
    (e.withBody e.body.removeNops.1).peekStack target = e.peekStack target := by
  have hkept := keeps_of_not_nop hb hlive hi hnop
  have hlive' : target ∈ e.body.removeNops.1.order :=
    (mem_order_thinned e.body.order_removeNops).mpr ⟨hlive, hkept⟩
  have hstart : 0 = e.body.rank e.body.keeps 0 := (rank_zero _ _).symm
  exact (simulation_removeNops hb hlive hi hnop).peekStack_eq ⟨hstart, rfl⟩ hlive hlive' h

/-- A constant that is stored and loaded behind a jump into padding and a branch to nowhere.  The
last jump goes to the end of the padding that nothing follows, and one instruction is passed by. -/
def paddedLoad : Evaluator where
  body :=
    { arena := [⟨.ldcI4 .short, .immediate (.int8 3), 0⟩, .nop, ⟨.stloc .short, .slot 0, 0⟩,
        ⟨.branch .br .long, .target ⟨5⟩, 0⟩, .nop, .nop, ⟨.branch .br .long, .target ⟨99⟩, 0⟩,
        ⟨.ldloc .short, .slot 0, 0⟩, .bare .pop, ⟨.branch .br .short, .target ⟨11⟩, 0⟩, .nop,
        .nop, .bare .dup]
      order := [⟨0⟩, ⟨1⟩, ⟨2⟩, ⟨3⟩, ⟨12⟩, ⟨4⟩, ⟨5⟩, ⟨6⟩, ⟨7⟩, ⟨8⟩, ⟨9⟩, ⟨10⟩, ⟨11⟩]
      locals := [⟨none, .i4⟩]
      handlers := []
      maxStack := 8
      initLocals := true }
  memory := []
  budget := 100
  offsetShift := none

/-- Of its padding only the end that is jumped to is left, and its answers are the same. -/
theorem paddedLoad_keeps_answers :
    paddedLoad.body.ArenaValid ∧
      paddedLoad.body.removeNops.1.order =
        [⟨0⟩, ⟨2⟩, ⟨3⟩, ⟨12⟩, ⟨6⟩, ⟨7⟩, ⟨8⟩, ⟨9⟩, ⟨11⟩] ∧
      (paddedLoad.withBody paddedLoad.body.removeNops.1).peekStack ⟨8⟩ = .known 3 ∧
      (paddedLoad.withBody paddedLoad.body.removeNops.1).peekStack ⟨12⟩ = .unknown .notReached := by
  have hb : paddedLoad.body.ArenaValid := by decide
  have hload : paddedLoad.peekStack ⟨8⟩ = .known 3 := by decide
  have hpassed : paddedLoad.peekStack ⟨12⟩ = .unknown .notReached := by decide
  have hload' := removeNops_keeps_answers paddedLoad hb ⟨8⟩ (.bare .pop) (by decide) rfl rfl
    (by simp [hload])
  have hpassed' := removeNops_keeps_answers paddedLoad hb ⟨12⟩ (.bare .dup) (by decide) rfl rfl
    (by simp [hpassed])
  exact ⟨hb, by decide, hload'.trans hload, hpassed'.trans hpassed⟩

end Evaluator

end CilRepair
