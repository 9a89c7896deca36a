import CilRepair.Body.StackDepth
import CilRepair.Proofs.ControlFlow
import CilRepair.Proofs.RepairSteps

/-!
# The declared maximum of the stack

The search for stack depths visits each place once, with the depth that happens to arrive first, and
it counts a call as taking nothing and pushing one value.  Depths that arrive later are dropped, so
that the table it leaves need not be consistent.  It is nevertheless an upper bound on the depths of
every true run, whatever the callees do to the stack, because too high a depth stays too high along
every step of control.

* `MethodBody.ConsistentDepths` — what the true depths of a body satisfy, for given effects of its
  calls.
* `MethodBody.Exploring` — the invariant of the search: what is in the table and in the list is
  good, and the table is closed under control up to what is pending.
* `MethodBody.Exploring.explore` — the search keeps it, for every notion of a good depth that steps
  of control keep.
* `MethodBody.filled_depths_iff` — in the end the places with a depth are those that control
  reaches.
* `MethodBody.computeMaxStack_covers_depths` — the declared maximum is at least the true one, and
  equal to it in a body without calls.

## Design notes

The invariant has a notion of a good depth as a parameter.  The same induction over the search then
gives three results: with every depth good it says which places are reached, with depths not below
the true ones it bounds the maximum, and with the true depths it makes it exact in a body without
calls.

True depths are natural numbers and may exceed what the header can hold; the declared maximum is cut
off at sixteen bits at the very end, and the statement says so.

The effect of a call is a function of its place, so that two calls of one method may differ, and the
only thing that is asked of it is that no call pushes more than one value.
-/

namespace CilRepair

/-- The instruction calls: what it does to the stack depends on the callee. -/
def Instruction.isCall (i : Instruction) : Bool :=
  match i.opcode with
  | .call | .calli | .callvirt | .newobj => true
  | _ => false

/-- A call counts as taking nothing and pushing one value, whatever the callee does. -/
theorem Instruction.stackEffect_of_isCall {i : Instruction} (h : i.isCall = true) :
    i.opcode.stackEffect = (0, 1) := by
  rw [isCall] at h
  split at h
  all_goals first
    | (next hop => rw [hop]; rfl)
    | exact absurd h (by decide)

namespace DepthTable

/-- A place has a depth. -/
def Filled (t : DepthTable) (p : Nat) : Prop := ∃ d, t[p]? = some (some d)

variable {t : DepthTable} {p q d : Nat}

/-- A place that is filled has a depth, -/
theorem filled_set_self (d : Nat) (hp : p < t.length) : Filled (t.set p (some d)) p :=
  ⟨d, List.getElem?_set_self hp⟩

/-- A vacant place that is filled changes no other place. -/
theorem getElem?_set_of_filled (d : Nat) (hvacant : t[p]? = some none) (hq : Filled t q) :
    (t.set p (some d))[q]? = t[q]? := by
  refine List.getElem?_set_ne ?_
  rintro rfl
  obtain ⟨d', hd'⟩ := hq
  simp [hvacant] at hd'

/-- and every place keeps the depth that it has. -/
theorem Filled.set (hq : Filled t q) (d : Nat) (hvacant : t[p]? = some none) :
    Filled (t.set p (some d)) q := by
  obtain ⟨d', hd'⟩ := hq
  exact ⟨d', by rw [getElem?_set_of_filled d hvacant ⟨d', hd'⟩, hd']⟩

/-- What is in the table after a visit was there before, or is the new depth. -/
theorem eq_or_getElem?_of_set {d' : Nat} (h : (t.set p (some d))[q]? = some (some d')) :
    (q = p ∧ d' = d) ∨ t[q]? = some (some d') := by
  rw [List.getElem?_set] at h
  split at h
  · next heq =>
      split at h
      · exact Or.inl ⟨heq.symm, (Option.some.inj (Option.some.inj h)).symm⟩
      · exact absurd h (by simp)
  · exact Or.inr h

end DepthTable

namespace MethodBody

open DepthTable

variable {b : MethodBody} {p q d d' : Nat} {i : Instruction} {Good : Nat → Nat → Prop}

/-! ### One step of the search -/

/-- **The successors of a place** are where control leads from it, all with the same depth.  A
target that is not live is no successor. -/
theorem mem_successors_iff (hb : b.ArenaValid) (hi : b.at? p = some i) (hq : q < b.length) :
    (q, d') ∈ b.successors p i d ↔ b.FlowsTo p q ∧ d' = depthOnward i d := by
  have hfall : (q, d') ∈ (if i.isTerminal then [] else [(p + 1, depthOnward i d)]) ↔
      ((!i.isTerminal) = true ∧ q = p + 1) ∧ d' = depthOnward i d := by
    cases i.isTerminal <;> simp
  rw [FlowsTo, leads_iff hi, successors, List.mem_append, hfall]
  simp only [List.mem_filterMap, Option.map_eq_some_iff, lastPosition?_eq_some_iff hb,
    Prod.mk.injEq]
  constructor
  · rintro (⟨id, hid, _, hat, rfl, rfl⟩ | ⟨hnext, rfl⟩)
    · exact ⟨⟨hq, Or.inl ⟨id, hid, hat⟩⟩, rfl⟩
    · exact ⟨⟨hq, Or.inr hnext⟩, rfl⟩
  · rintro ⟨⟨-, ⟨id, hid, hat⟩ | hnext⟩, rfl⟩
    · exact Or.inl ⟨id, hid, q, hat, rfl, rfl⟩
    · exact Or.inr ⟨hnext, rfl⟩

/-- Steps of control keep good depths good. -/
def FlowClosed (b : MethodBody) (Good : Nat → Nat → Prop) : Prop :=
  ∀ p q d i, Good p d → b.at? p = some i → b.FlowsTo p q → Good q (depthOnward i d)

/-- The search has got to a place: it is recorded, or pending. -/
def Met (pending : List (Nat × Nat)) (table : DepthTable) (q : Nat) : Prop :=
  Filled table q ∨ ∃ d, (q, d) ∈ pending

/-- **The state of the search.**  Only good depths are recorded or pending, and the search has got
to every entry and to every place where control leads from a recorded one. -/
structure Exploring (b : MethodBody) (Good : Nat → Nat → Prop) (pending : List (Nat × Nat))
    (table : DepthTable) : Prop where
  length_eq : table.length = b.length
  pending_good : ∀ q d, (q, d) ∈ pending → q < b.length → Good q d
  table_good : ∀ p d, table[p]? = some (some d) → Good p d
  entries_met : ∀ q, b.IsEntry q → Met pending table q
  steps_met : ∀ p q, Filled table p → b.FlowsTo p q → Met pending table q

variable {pending rest : List (Nat × Nat)} {table : DepthTable}

/-- With nothing pending, what is met is recorded. -/
theorem filled_of_met (h : Met [] table q) : Filled table q :=
  h.resolve_right fun ⟨_, hmem⟩ => absurd hmem List.not_mem_nil

/-- What was pending is still met when the head of the list is recorded. -/
theorem Met.of_cons {table' : DepthTable} (h : Met ((p, d) :: rest) table q)
    (hhead : q = p → Filled table' q) (hkeep : Filled table q → Filled table' q) :
    Met rest table' q := by
  rcases h with hfilled | ⟨d', hmem⟩
  · exact Or.inl (hkeep hfilled)
  · rcases List.mem_cons.mp hmem with heq | hmem
    · exact Or.inl (hhead (Prod.mk.inj heq).1)
    · exact Or.inr ⟨d', hmem⟩

/-- A place that needs no visit only leaves the list.  It has a depth already, or is outside. -/
theorem Exploring.skip (h : b.Exploring Good ((p, d) :: rest) table)
    (hstale : Filled table p ∨ b.length ≤ p) : b.Exploring Good rest table := by
  have hmet : ∀ q, q < b.length → Met ((p, d) :: rest) table q → Met rest table q := by
    intro q hq hmet
    refine hmet.of_cons ?_ id
    rintro rfl
    exact hstale.resolve_right (Nat.not_le.mpr hq)
  exact ⟨h.length_eq, fun q d hmem => h.pending_good q d (List.mem_cons_of_mem _ hmem),
    h.table_good, fun q hq => hmet q hq.lt (h.entries_met q hq),
    fun p q hp hflow => hmet q hflow.lt (h.steps_met p q hp hflow)⟩

/-- **A visit** fills a vacant place and puts its successors on the list, where their depths are
good because the depth of the place is. -/
theorem Exploring.visit (hb : b.ArenaValid) (hclosed : b.FlowClosed Good)
    (h : b.Exploring Good ((p, d) :: rest) table) (hvacant : table[p]? = some none)
    (hi : b.at? p = some i) :
    b.Exploring Good ((b.successors p i d).reverse ++ rest) (table.set p (some d)) := by
  have hp : p < b.length := at?_lt hi
  have hgood : Good p d := h.pending_good p d List.mem_cons_self hp
  have hself : Filled (table.set p (some d)) p := filled_set_self d (h.length_eq ▸ hp)
  -- What was met is still met: the vacant place is filled, and pending places stay pending.
  have hmet : ∀ q, Met ((p, d) :: rest) table q →
      Met ((b.successors p i d).reverse ++ rest) (table.set p (some d)) q := by
    intro q hmet
    refine (hmet.of_cons ?_ fun hfilled => hfilled.set d hvacant).imp_right ?_
    · rintro rfl
      exact hself
    · exact fun ⟨d', hmem⟩ => ⟨d', List.mem_append_right _ hmem⟩
  refine ⟨by rw [List.length_set, h.length_eq], ?_, ?_, fun q hq => hmet q (h.entries_met q hq), ?_⟩
  · intro q d' hmem hq
    rcases List.mem_append.mp hmem with hnew | hold
    · obtain ⟨hflow, rfl⟩ := (mem_successors_iff hb hi hq).mp (List.mem_reverse.mp hnew)
      exact hclosed p q d i hgood hi hflow
    · exact h.pending_good q d' (List.mem_cons_of_mem _ hold) hq
  · intro q d' hq
    rcases eq_or_getElem?_of_set hq with ⟨rfl, rfl⟩ | hold
    · exact hgood
    · exact h.table_good q d' hold
  · rintro p' q ⟨d', hp'⟩ hflow
    rcases eq_or_getElem?_of_set hp' with ⟨rfl, rfl⟩ | hold
    · refine Or.inr ⟨depthOnward i d', List.mem_append_left _ (List.mem_reverse.mpr ?_)⟩
      exact (mem_successors_iff hb hi hflow.lt).mpr ⟨hflow, rfl⟩
    · exact hmet q (h.steps_met p' q ⟨d', hold⟩ hflow)

/-! ### The search as a whole -/

/-- **The search keeps its invariant** until nothing is pending.  By the induction of its
definition: each step skips a place or visits it. -/
theorem Exploring.explore (hb : b.ArenaValid) (hclosed : b.FlowClosed Good)
    (h : b.Exploring Good pending table) :
    b.Exploring Good [] (b.explore pending table) := by
  fun_induction MethodBody.explore b pending table with
  | case1 => exact h
  | case2 table p d rest hvacant i hi ih => exact ih (h.visit hb hclosed hvacant hi)
  | case3 table p d rest hvacant hi ih =>
      -- A vacant place is inside the body, and there is an instruction at it.
      obtain ⟨hp, -⟩ := List.getElem?_eq_some_iff.mp hvacant
      obtain ⟨i, hi'⟩ := hb.exists_at? (h.length_eq ▸ hp)
      simp [hi'] at hi
  | case4 table p d rest hstale ih =>
      refine ih (h.skip ?_)
      cases hp : table[p]? with
      | none => exact Or.inr (h.length_eq ▸ List.getElem?_eq_none_iff.mp hp)
      | some entry =>
          cases entry with
          | none => exact absurd hp hstale
          | some d' => exact Or.inl ⟨d', hp⟩

/-- **The entries of the search** are those of the body, with their depths. -/
theorem mem_entries_iff (hb : b.ArenaValid) :
    (p, d) ∈ b.entries ↔ (p = 0 ∧ b.order ≠ [] ∧ d = 0) ∨
      ∃ h ∈ b.handlers, (b.idAt? p = some h.handlerStart ∧ d = h.entryDepth) ∨
        (∃ id ∈ h.filterStart, b.idAt? p = some id) ∧ d = 1 := by
  have hstart : (p, d) ∈ (if b.order.isEmpty then [] else [(0, 0)]) ↔
      p = 0 ∧ b.order ≠ [] ∧ d = 0 := by
    cases hempty : b.order <;> simp
  rw [entries, List.mem_append, hstart, List.mem_flatMap]
  refine or_congr_right (exists_congr fun h => and_congr_right fun _ => ?_)
  simp only [handlerEntries, List.mem_append, Option.mem_toList, Option.mem_def,
    Option.map_eq_some_iff, Option.bind_eq_some_iff, lastPosition?_eq_some_iff hb, Prod.mk.injEq]
  constructor
  · rintro (⟨_, hat, rfl, rfl⟩ | ⟨_, ⟨id, hid, hat⟩, rfl, rfl⟩)
    · exact Or.inl ⟨hat, rfl⟩
    · exact Or.inr ⟨⟨id, hid, hat⟩, rfl⟩
  · rintro (⟨hat, rfl⟩ | ⟨⟨id, hid, hat⟩, rfl⟩)
    · exact Or.inl ⟨p, hat, rfl, rfl⟩
    · exact Or.inr ⟨p, ⟨id, hid, hat⟩, rfl, rfl⟩

/-- The search begins with its entries pending and an empty table.  Each is good by assumption, and
no depth is recorded yet. -/
theorem exploring_entries (hb : b.ArenaValid) (hgood : ∀ p d, (p, d) ∈ b.entries → Good p d) :
    b.Exploring Good b.entries.reverse (List.replicate b.length none) := by
  have hempty : ∀ p, ¬ Filled (List.replicate b.length none) p := by
    rintro p ⟨d, hd⟩
    simp [List.getElem?_replicate] at hd
  refine ⟨List.length_replicate, fun q d hmem _ => hgood q d (List.mem_reverse.mp hmem),
    fun p d hp => absurd ⟨d, hp⟩ (hempty p), fun q hq => Or.inr ?_,
    fun p q hp => absurd hp (hempty p)⟩
  simp only [List.mem_reverse, mem_entries_iff hb]
  rcases hq with ⟨rfl, hne⟩ | ⟨h, hh, hid | ⟨id, hid, hat⟩⟩
  · exact ⟨0, Or.inl ⟨rfl, hne, rfl⟩⟩
  · exact ⟨h.entryDepth, Or.inr ⟨h, hh, Or.inl ⟨hid, rfl⟩⟩⟩
  · exact ⟨1, Or.inr ⟨h, hh, Or.inr ⟨⟨id, hid, hat⟩, rfl⟩⟩⟩

/-- **Every depth that the search finds is good,** if those of the entries are. -/
theorem exploring_depths (hb : b.ArenaValid) (hclosed : b.FlowClosed Good)
    (hgood : ∀ p d, (p, d) ∈ b.entries → Good p d) : b.Exploring Good [] b.depths :=
  (exploring_entries hb hgood).explore hb hclosed

/-- An entry of the search is one of the body. -/
theorem isEntry_of_mem_entries (hb : b.ArenaValid) (h : (p, d) ∈ b.entries) : b.IsEntry p := by
  rcases (mem_entries_iff hb).mp h with ⟨rfl, hne, -⟩ | ⟨h, hh, ⟨hid, -⟩ | ⟨hfilter, -⟩⟩
  · exact Or.inl ⟨rfl, hne⟩
  · exact Or.inr ⟨h, hh, Or.inl hid⟩
  · exact Or.inr ⟨h, hh, Or.inr hfilter⟩

/-- **The search is complete:** a place has a depth exactly if control reaches it.  One direction is
the invariant with reached places as good ones, the other is the induction over what is reached. -/
theorem filled_depths_iff (hb : b.ArenaValid) : Filled b.depths p ↔ b.Reached p := by
  have hexplored : b.Exploring (fun p _ => b.Reached p) [] b.depths :=
    exploring_depths hb (fun p q d i hp _ hflow => hp.step hflow)
      fun p d hmem => (isEntry_of_mem_entries hb hmem).reached
  constructor
  · rintro ⟨d, hd⟩
    exact hexplored.table_good p d hd
  · exact fun h => h.induct (fun q hq => filled_of_met (hexplored.entries_met q hq))
      fun p q _ hp hflow => filled_of_met (hexplored.steps_met p q hp hflow)

/-- The depth that the search finds at an instruction, and the one behind it, bound the maximum
from below, and nothing else does. -/
theorem maxDepth_le_iff {n : Nat} :
    b.maxDepth ≤ n ↔ ∀ p d i, b.depths[p]? = some (some d) → b.at? p = some i →
      d ≤ n ∧ depthAfter i d ≤ n := by
  simp only [maxDepth, foldl_max_le_iff, Nat.zero_le, true_and, List.mem_iff_getElem?,
    List.getElem?_mapIdx, Option.map_eq_some_iff]
  constructor
  · intro h p d i hd hi
    have hpeak := h _ ⟨p, some d, hd, rfl⟩
    simp only [peakAt, hi] at hpeak
    omega
  · rintro h _ ⟨p, depth, hd, rfl⟩
    cases depth with
    | none => simp [peakAt]
    | some d =>
        cases hi : b.at? p with
        | none => simp [peakAt, hi]
        | some i =>
            have hboth := h p d i hd hi
            simp only [peakAt, hi]
            omega

/-! ### True depths -/

/-- **The true effect of the instruction at a place:** what the callee does if it is a call, and
otherwise that of its opcode. -/
def trueEffect (calls : Nat → Nat × Nat) (p : Nat) (i : Instruction) : Nat × Nat :=
  if i.isCall then calls p else i.opcode.stackEffect

/-- The true depth behind the instruction at a place. -/
def trueDepthAfter (calls : Nat → Nat × Nat) (depth : Nat → Nat) (p : Nat) (i : Instruction) :
    Nat :=
  depth p - (trueEffect calls p i).1 + (trueEffect calls p i).2

/-- **Depths of the stack that fit the body,** for given effects of its calls: the entries have
those that they are entered with, no reached instruction takes more than there is, and every step of
control arrives with the depth behind its instruction, or with none after a `leave`. -/
structure ConsistentDepths (b : MethodBody) (calls : Nat → Nat × Nat) (depth : Nat → Nat) :
    Prop where
  start : b.order ≠ [] → depth 0 = 0
  handlers : ∀ h ∈ b.handlers, ∀ p, b.idAt? p = some h.handlerStart →
    depth p = if h.flags.entersEmpty then 0 else 1
  filters : ∀ h ∈ b.handlers, ∀ id ∈ h.filterStart, ∀ p, b.idAt? p = some id → depth p = 1
  no_underflow : ∀ p i, b.Reached p → b.at? p = some i → (trueEffect calls p i).1 ≤ depth p
  steps : ∀ p q i, b.Reached p → b.at? p = some i → b.FlowsTo p q →
    depth q = if i.opcode.flow = .leave then 0 else trueDepthAfter calls depth p i

open Classical in
/-- **The true maximum:** the greatest depth before or behind an instruction that control
reaches. -/
noncomputable def truePeak (b : MethodBody) (calls : Nat → Nat × Nat) (depth : Nat → Nat) : Nat :=
  ((Finset.range b.length).filter b.Reached).sup fun p =>
    match b.at? p with
    | some i => max (depth p) (trueDepthAfter calls depth p i)
    | none => 0

variable {calls : Nat → Nat × Nat} {depth : Nat → Nat}

/-- The true maximum is bounded if each depth before and behind a reached instruction is.  Places
that control does not reach count for nothing. -/
theorem truePeak_le_iff (hb : b.ArenaValid) {n : Nat} :
    b.truePeak calls depth ≤ n ↔ ∀ p i, b.Reached p → b.at? p = some i →
      depth p ≤ n ∧ trueDepthAfter calls depth p i ≤ n := by
  simp only [truePeak, Finset.sup_le_iff, Finset.mem_filter, Finset.mem_range, and_imp]
  constructor
  · intro h p i hp hi
    have hpeak := h p hp.lt hp
    simp only [hi] at hpeak
    omega
  · intro h p _ hp
    obtain ⟨i, hi⟩ := hb.exists_at? hp.lt
    have hboth := h p i hp hi
    simp only [hi]
    omega

/-- **Too high a depth stays too high:** behind an instruction the search is at least as deep as the
truth if it was so in front of it. -/
theorem trueDepthAfter_le (hcalls : (calls p).2 ≤ 1) (h : depth p ≤ d) :
    trueDepthAfter calls depth p i ≤ depthAfter i d := by
  rw [trueDepthAfter, trueEffect, depthAfter]
  split
  · next hcall =>
      rw [Instruction.stackEffect_of_isCall hcall]
      omega
  · omega

/-- Without a call the search follows the truth exactly. -/
theorem trueDepthAfter_eq (hcall : i.isCall = false) :
    trueDepthAfter calls depth p i = depthAfter i (depth p) := by
  rw [trueDepthAfter, trueEffect, hcall]
  rfl

/-- An entry of the search has its true depth. -/
theorem ConsistentDepths.depth_entry (hb : b.ArenaValid) (h : b.ConsistentDepths calls depth)
    (hmem : (p, d) ∈ b.entries) : depth p = d := by
  rcases (mem_entries_iff hb).mp hmem with
    ⟨rfl, hne, rfl⟩ | ⟨x, hx, ⟨hid, rfl⟩ | ⟨⟨id, hid, hat⟩, rfl⟩⟩
  · exact h.start hne
  · exact h.handlers x hx p hid
  · exact h.filters x hx id hid p hat

/-- **The search never finds too low a depth.**  Good are the depths that are not below the true
one. -/
theorem ConsistentDepths.le_of_depths (hb : b.ArenaValid) (h : b.ConsistentDepths calls depth)
    (hcalls : ∀ p, (calls p).2 ≤ 1) (hd : b.depths[p]? = some (some d)) : depth p ≤ d := by
  have hexplored : b.Exploring (fun p d => b.Reached p ∧ depth p ≤ d) [] b.depths := by
    refine exploring_depths hb ?_ fun p d hmem =>
      ⟨(isEntry_of_mem_entries hb hmem).reached, (h.depth_entry hb hmem).le⟩
    rintro p q d i ⟨hp, hle⟩ hi hflow
    refine ⟨hp.step hflow, ?_⟩
    rw [h.steps p q i hp hi hflow, depthOnward]
    split
    · exact Nat.le_refl 0
    · exact trueDepthAfter_le (hcalls p) hle
  exact (hexplored.table_good p d hd).2

/-- **Without calls the search finds the true depths.**  Good is the true depth alone. -/
theorem ConsistentDepths.eq_of_depths (hb : b.ArenaValid) (h : b.ConsistentDepths calls depth)
    (hcalls : ∀ p i, b.at? p = some i → i.isCall = false) (hd : b.depths[p]? = some (some d)) :
    d = depth p := by
  have hexplored : b.Exploring (fun p d => b.Reached p ∧ d = depth p) [] b.depths := by
    refine exploring_depths hb ?_ fun p d hmem =>
      ⟨(isEntry_of_mem_entries hb hmem).reached, (h.depth_entry hb hmem).symm⟩
    rintro p q _ i ⟨hp, rfl⟩ hi hflow
    exact ⟨hp.step hflow, by
      rw [h.steps p q i hp hi hflow, depthOnward, trueDepthAfter_eq (hcalls p i hi)]⟩
  exact (hexplored.table_good p d hd).2

/-- The true maximum is not above the one that the search finds. -/
theorem ConsistentDepths.truePeak_le (hb : b.ArenaValid) (h : b.ConsistentDepths calls depth)
    (hcalls : ∀ p, (calls p).2 ≤ 1) : b.truePeak calls depth ≤ b.maxDepth := by
  refine (truePeak_le_iff hb).mpr fun p i hp hi => ?_
  obtain ⟨d, hd⟩ := (filled_depths_iff hb).mpr hp
  have hle : depth p ≤ d := h.le_of_depths hb hcalls hd
  have hafter := trueDepthAfter_le (i := i) (hcalls p) hle
  have hmax := maxDepth_le_iff.mp (Nat.le_refl b.maxDepth) p d i hd hi
  omega

/-- Without calls it is not below either. -/
theorem ConsistentDepths.le_truePeak (hb : b.ArenaValid) (h : b.ConsistentDepths calls depth)
    (hcalls : ∀ p i, b.at? p = some i → i.isCall = false) :
    b.maxDepth ≤ b.truePeak calls depth := by
  refine maxDepth_le_iff.mpr fun p d i hd hi => ?_
  have hp : b.Reached p := (filled_depths_iff hb).mp ⟨d, hd⟩
  obtain rfl : d = depth p := h.eq_of_depths hb hcalls hd
  rw [← trueDepthAfter_eq (hcalls p i hi)]
  exact (truePeak_le_iff hb).mp (Nat.le_refl _) p i hp hi

/-- The declared maximum is the one that was found, cut off at sixteen bits. -/
theorem toNat_computeMaxStack (b : MethodBody) :
    b.computeMaxStack.toNat = min 65535 b.maxDepth := by
  have hsmall : min b.maxDepth 65535 < UInt16.size := by
    rw [UInt16.size]
    omega
  rw [computeMaxStack, UInt16.toNat_ofNat_of_lt' hsmall, Nat.min_comm]

/-- **The declared maximum never underestimates.**  Whatever the callees take off the stack, and as
long as none of them pushes more than one value: for every consistent assignment of depths, the
declared maximum covers the depths before and behind every instruction that control reaches from the
entry and the handlers, up to the sixteen bits of the header.  Without calls it is exact. -/
theorem computeMaxStack_covers_depths (b : MethodBody) (hb : b.ArenaValid)
    (calls : Nat → Nat × Nat) (hcalls : ∀ p, (calls p).2 ≤ 1) (depth : Nat → Nat)
    (h : b.ConsistentDepths calls depth) :
    min 65535 (b.truePeak calls depth) ≤ b.computeMaxStack.toNat ∧
      ((∀ i ∈ b.instructions, i.isCall = false) →
        b.computeMaxStack.toNat = min 65535 (b.truePeak calls depth)) := by
  have hle := h.truePeak_le hb hcalls
  rw [toNat_computeMaxStack]
  refine ⟨by omega, fun hnone => ?_⟩
  have hge := h.le_truePeak hb fun p i hi => hnone i (mem_instructions_iff.mpr ⟨p, hi⟩)
  omega

/-- A guarded call that takes a value and returns none, so that the two ways to the end of the
guarded range look unequally deep to the search. -/
def callingBody : MethodBody where
  arena := [⟨.ldcI4 .short, .immediate (.int8 1), 0⟩, ⟨.branch .brtrue .short, .target ⟨4⟩, 2⟩,
    ⟨.ldcI4 .short, .immediate (.int8 2), 4⟩, ⟨.call, .absent, 6⟩,
    ⟨.branch .leave .short, .target ⟨7⟩, 11⟩, ⟨.pop, .absent, 13⟩,
    ⟨.branch .leave .short, .target ⟨7⟩, 14⟩, ⟨.ret, .absent, 16⟩]
  order := [⟨0⟩, ⟨1⟩, ⟨2⟩, ⟨3⟩, ⟨4⟩, ⟨5⟩, ⟨6⟩, ⟨7⟩]
  locals := []
  handlers := [.catching ⟨0⟩ ⟨5⟩ ⟨5⟩ (some ⟨7⟩) "System.Exception"]
  maxStack := 8
  initLocals := false

/-- The true depths in `callingBody`, by place. -/
def callingDepth (p : Nat) : Nat := [0, 1, 0, 1, 0, 1, 0, 0].getD p 0

/-- The search arrives at the end of the range with two values, and declares room for them. -/
theorem callingBody_covered :
    callingBody.ArenaValid ∧ callingBody.ConsistentDepths (fun _ => (1, 0)) callingDepth ∧
      callingBody.computeMaxStack = 2 ∧
      callingBody.truePeak (fun _ => (1, 0)) callingDepth ≤ 2 := by
  have hhandlers : ∀ h ∈ callingBody.handlers, ∀ p < 8, callingBody.idAt? p = some h.handlerStart →
      callingDepth p = if h.flags.entersEmpty then 0 else 1 := by decide
  have hfilters : ∀ h ∈ callingBody.handlers, h.filterStart = none := by decide
  have hunderflow : ∀ p < 8, ∀ i ∈ callingBody.at? p,
      (trueEffect (fun _ => (1, 0)) p i).1 ≤ callingDepth p := by decide
  have hsteps : ∀ p < 8, ∀ q < 8, callingBody.FlowsTo p q → ∀ i ∈ callingBody.at? p,
      callingDepth q = if i.opcode.flow = .leave then 0 else
        trueDepthAfter (fun _ => (1, 0)) callingDepth p i := by decide
  have hconsistent : callingBody.ConsistentDepths (fun _ => (1, 0)) callingDepth :=
    { start := fun _ => rfl
      handlers := fun h hh p hp => hhandlers h hh p (idAt?_lt hp) hp
      filters := fun h hh id hid => absurd (hfilters h hh ▸ hid) (Option.not_mem_none id)
      no_underflow := fun p i _ hi => hunderflow p (at?_lt hi) i hi
      steps := fun p q i _ hi hflow => hsteps p (at?_lt hi) q hflow.lt hflow i hi }
  have hmax : callingBody.computeMaxStack = 2 := by cbv
  have hcovers := (computeMaxStack_covers_depths callingBody (by decide) (fun _ => (1, 0))
    (fun _ => Nat.zero_le 1) callingDepth hconsistent).1
  rw [hmax] at hcovers
  change min 65535 _ ≤ 2 at hcovers
  exact ⟨by decide, hconsistent, hmax, by omega⟩

end MethodBody

end CilRepair
