import CilRepair.Body.References
import CilRepair.Proofs.Assembling
import CilRepair.Proofs.Offsets
import CilRepair.Proofs.Soundness

/-!
# Assembled bodies

Finishing returns what the script asks for.  The slots of the finished body are the emissions in
their order, all live, so that the place of an instruction is its slot and its identity at once.
An operand that waits for labels goes to the slot of its emission, and no emission waits twice.

* `MethodBody.Sequential` — bodies whose slots are all live, in their order.
* `arena_fill_numbered` — what the waiting operands make of the slots.
* `Tracks.finish_eq` — when finishing fails, and with which label.
* `Assembled` — what a body assembled from a script is.
* `finish_meets_script` — the main theorem.

## Design notes

`finish` is an equation about the script before it is anything else: `Tracks.finish_eq` says which
error comes or which body, and the main theorem only has to describe that body.

Operands that wait are filled in by slot.  They are kept in the order of the emissions, so the proof
goes by induction from the last emission: a fill changes the slot of its own emission and none of
those before it, which is where distinct identities are needed.

Two bounds remain in the statement.  Identities are distinct up to `2 ^ 32` emissions, and offsets
are sums of sizes as long as the code size fits.  `long_scripts_wrap` has a script beyond each.
-/

namespace CilRepair

/-! ### Sequential bodies -/

namespace MethodBody

/-- **Every slot is live, in the order of the slots.** -/
structure Sequential (b : MethodBody) : Prop where
  order_eq : b.order = (List.range b.arena.length).map InstrId.nth
  room : b.arena.length ≤ UInt32.size

namespace Sequential

variable {b : MethodBody} {p : Nat} (h : b.Sequential)

include h

/-- The identity at a place is counted by the place, -/
theorem idAt?_eq (hp : p < b.arena.length) : b.idAt? p = some (InstrId.nth p) := by
  rw [idAt?, h.order_eq, List.getElem?_map, List.getElem?_range hp]
  rfl

/-- and names the slot with that number. -/
theorem slot_nth (hp : p < b.arena.length) : (InstrId.nth p).slot = p :=
  InstrId.slot_nth (hp.trans_le h.room)

/-- Such a body is valid: no slot is named twice.  Identities count the slots, as long as there are
enough identities for them. -/
theorem arenaValid : b.ArenaValid where
  slot_lt id hid := by
    rw [h.order_eq, List.mem_map] at hid
    obtain ⟨p, hp, rfl⟩ := hid
    have hp := List.mem_range.mp hp
    rwa [h.slot_nth hp]
  nodup := by
    rw [h.order_eq]
    refine List.Nodup.map_on (fun p hp q hq heq => ?_) List.nodup_range
    have hlt : ∀ {n}, n ∈ List.range b.arena.length → n < UInt32.size :=
      fun hn => (List.mem_range.mp hn).trans_le h.room
    exact InstrId.nth_inj (hlt hp) (hlt hq) heq

/-- What stands at a place is what is in the slot with that number. -/
theorem at?_eq (p : Nat) : b.at? p = b.arena[p]? := by
  by_cases hp : p < b.arena.length
  · rw [at?_of_idAt? (h.idAt?_eq hp), get?, h.slot_nth hp]
  · have hlength : b.length ≤ p := by
      rw [length, h.order_eq, List.length_map, List.length_range]
      omega
    rw [at?, idAt?_eq_none_iff.mpr hlength, List.getElem?_eq_none (Nat.not_lt.mp hp)]
    rfl

end Sequential

end MethodBody

namespace Assembler

open Emission MethodBody

variable {a : Assembler} {s : Script} {es : List Emission}

/-! ### Finishing -/

/-- **Operands go to the slots of the emissions that wait for them.**  The induction adds emissions
at the end, where their slots are, and the slots behind them are still as they were. -/
theorem arena_fill_numbered (operand? : Emission → Option Operand) {f : Emission → Instruction}
    {b : MethodBody} {after : List Instruction} (hroom : es.length ≤ UInt32.size)
    (h : b.arena = es.map f ++ after) :
    (b.fill (numbered operand? es)).arena =
      es.map (fun e => (operand? e).elim (f e) (withOperand · (f e))) ++ after := by
  induction es using List.reverseRecOn generalizing after with
  | nil => exact h
  | append_singleton es e ih =>
      rw [List.length_append, List.length_singleton] at hroom
      rw [List.map_append, List.append_assoc] at h
      have hinit := ih (Nat.le_of_succ_le hroom) h
      rw [numbered_concat, fill_append, List.map_append, List.append_assoc, List.map_singleton,
        List.singleton_append]
      cases he : operand? e with
      | none => exact hinit
      | some operand =>
          have hslot := InstrId.slot_nth (Nat.lt_of_succ_le hroom)
          change (MethodBody.arena _).modify (InstrId.nth es.length).slot _ = _
          rw [hinit, hslot, List.map_singleton, List.singleton_append]
          exact modify_append_cons (List.length_map _) _ _ _

section Tracked

variable (h : Tracks s a)

include h

/-- Without labels that wait, the assembler looks labels up in the script. -/
theorem Tracks.lookup_eq (hnone : s.danglingLabel? = none) (name : String) :
    a.labels.lookup name = (s.place? name).map InstrId.nth := by
  have hpending : a.pending = [] := List.head?_eq_none_iff.mp (h.labelled.waiting.trans hnone)
  rw [← h.labelled.known, hpending, List.map_nil, List.append_nil]

/-- So operands are filled with what the script says. -/
theorem Tracks.target_eq (hnone : s.danglingLabel? = none) : a.target = s.target := by
  funext name
  rw [target, h.lookup_eq hnone, Script.target]

/-- The labels that are needed are those that the script uses, in the order in which they are asked
for. -/
theorem Tracks.neededLabels_eq : a.neededLabels = s.usedLabels := by
  rw [neededLabels, Script.usedLabels, h.emitted.branches, h.emitted.switches, h.emitted.specs,
    map_snd_numbered, ← map_snd_numbered switch?, List.flatMap_def]

/-- **What finishing returns,** read off the script.  A label that waits is reported before a label
that is missing, and a body is only returned if there is neither. -/
theorem Tracks.finish_eq : a.finish = match s.danglingLabel?, s.missingLabel? with
    | some name, _ => .error (.malformed (.danglingLabel name))
    | none, some name => .error (.undefinedLabel name)
    | none, none => .ok a.resolvedBody.updateOffsets := by
  rw [Assembler.finish_eq, h.labelled.waiting]
  cases hdangling : s.danglingLabel? with
  | some name => rfl
  | none =>
      have hmissing : (s.usedLabels.find? fun name => (a.labels.lookup name).isNone) =
          s.missingLabel? := by
        simp only [h.lookup_eq hdangling, Option.isNone_map]
        rfl
      rw [h.neededLabels_eq]
      dsimp only
      rw [needing, hmissing]
      cases s.missingLabel? <;> rfl

theorem Tracks.order_resolvedBody :
    a.resolvedBody.order = (List.range s.emissions.length).map InstrId.nth := by
  rw [resolvedBody]
  exact (order_fill _ _).trans h.emitted.order

/-- **The slots of the finished body** are the emissions with their labels resolved.  Branches are
filled in first and tables after them, and no emission is both. -/
theorem Tracks.arena_resolvedBody (hnone : s.danglingLabel? = none)
    (hroom : s.emissions.length ≤ UInt32.size) :
    a.resolvedBody.arena = s.emissions.map (resolved s.target) := by
  have hbranches : a.branchOperands =
      numbered (fun e => e.branch?.map fun name => .target (s.target name)) s.emissions := by
    rw [branchOperands, h.emitted.branches, h.target_eq hnone]
    exact map_numbered branch? _ _
  have hswitches : a.switchOperands =
      numbered (fun e => e.switch?.map fun names => .switch (names.map s.target)) s.emissions := by
    rw [switchOperands, h.emitted.switches, h.target_eq hnone]
    exact map_numbered switch? _ _
  have hstart : a.body.arena = s.emissions.map placeholder ++ [] := by
    rw [h.emitted.arena, List.append_nil]
  rw [resolvedBody, fill_append, hbranches, hswitches]
  -- The branches first, then the switches: no emission waits for both.
  refine (arena_fill_numbered _ hroom (arena_fill_numbered _ hroom hstart)).trans ?_
  rw [List.append_nil]
  refine List.map_congr_left fun e _ => ?_
  cases e <;> rfl

theorem Tracks.sequential (hnone : s.danglingLabel? = none)
    (hroom : s.emissions.length ≤ UInt32.size) : a.resolvedBody.Sequential where
  order_eq := by rw [h.order_resolvedBody, h.arena_resolvedBody hnone hroom, List.length_map]
  room := by rwa [h.arena_resolvedBody hnone hroom, List.length_map]

end Tracked

/-- **The body is the code of a script:** at each place stands what was emitted there, with its
labels resolved, and its offset is the sum of the sizes before it. -/
def IsCode (s : Script) (b : MethodBody) : Prop :=
  ∀ p, b.at? p = s.emissions[p]?.map fun e =>
    { e.resolved s.target with offset := UInt32.ofNat (b.startAt p) }

/-- The code of a script uses the locals that the emissions use. -/
theorem IsCode.exists_emission_of_local? {b : MethodBody} (h : IsCode s b) {p : Nat}
    {i : Instruction} {index : UInt16} (hi : b.at? p = some i) (hindex : i.local? = some index) :
    ∃ e ∈ s.emissions, e.placeholder.local? = some index := by
  obtain ⟨e, he, rfl⟩ := Option.map_eq_some_iff.mp ((h p).symm.trans hi)
  refine ⟨e, List.mem_of_getElem? he, ?_⟩
  rw [← local?_resolved s.target]
  exact hindex

/-- What the code of a script and its handlers name is what the labels stand for.  Instructions that
are emitted whole must not name any by themselves. -/
theorem IsCode.exists_label_of_reference {b : MethodBody} (h : IsCode s b) {id : InstrId}
    (hhandlers : b.handlers = s.handlers.map (HandlerSpec.resolved s.target))
    (hraw : ∀ i, Call.emit i ∈ s → i.targets = []) (hid : id ∈ b.references) :
    ∃ label ∈ s.usedLabels, s.target label = id := by
  rcases List.mem_append.mp hid with hid | hid
  · obtain ⟨i, hi, htarget⟩ := List.mem_flatMap.mp hid
    obtain ⟨p, hp⟩ := mem_instructions_iff.mp hi
    obtain ⟨e, he, rfl⟩ := Option.map_eq_some_iff.mp ((h p).symm.trans hp)
    exact Script.mem_targets_resolved hraw (List.mem_of_getElem? he) htarget
  · rw [hhandlers] at hid
    obtain ⟨handler, hhandler, hboundary⟩ := List.mem_flatMap.mp hid
    obtain ⟨spec, hspec, rfl⟩ := List.mem_map.mp hhandler
    rw [HandlerSpec.boundaries_resolved] at hboundary
    obtain ⟨label, hlabel, rfl⟩ := List.mem_map.mp hboundary
    exact ⟨label, List.mem_append_right _ (List.mem_append_right _
      (List.mem_flatMap.mpr ⟨spec, hspec, hlabel⟩)), rfl⟩

/-- **A body assembled from a script.** -/
structure Assembled (s : Script) (b : MethodBody) : Prop where
  /-- The sequence is the emitted instructions, numbered in their order. -/
  order_eq : b.order = (List.range s.emissions.length).map InstrId.nth
  code : IsCode s b
  laidOut : b.codeSize < UInt32.size → b.LaidOut
  /-- A label that is used stands for the instruction at its place. -/
  targets_eq : ∀ label ∈ s.usedLabels,
    ∃ p, s.place? label = some p ∧ b.idAt? p = some (s.target label)
  handlers_eq : b.handlers = s.handlers.map (HandlerSpec.resolved s.target)
  locals_declared : Call.noAutoLocals ∉ s → b.LocalsDeclared
  valid : b.arenaFault? = none
  /-- Without operands that were emitted as they are, no reference dangles. -/
  references_live : (∀ i, Call.emit i ∈ s → i.targets = []) → ∀ id ∈ b.references, id ∈ b.order

/-- **The finished body is assembled from the script.**  The sequence and the slots come from the
record that was kept, the operands from the labels, and the offsets from the update at the end. -/
theorem Tracks.assembled (h : Tracks s a) (hdangling : s.danglingLabel? = none)
    (hmissing : s.missingLabel? = none) (hroom : s.emissions.length ≤ UInt32.size) :
    Assembled s a.resolvedBody.updateOffsets := by
  have hsequential := h.sequential hdangling hroom
  have hvalid := hsequential.arenaValid
  have hcode : IsCode s a.resolvedBody.updateOffsets := fun p => by
    rw [at?_updateOffsets hvalid, startAt_updateOffsets hvalid, hsequential.at?_eq,
      h.arena_resolvedBody hdangling hroom, List.getElem?_map, Option.map_map]
    rfl
  -- A label stands for a place, and the identity at a place is its number.
  have htargets : ∀ label ∈ s.usedLabels, ∃ p, s.place? label = some p ∧
      a.resolvedBody.updateOffsets.idAt? p = some (s.target label) := fun label hlabel => by
    obtain ⟨p, hp⟩ := Script.exists_place? hmissing hlabel
    have hlt : p < a.resolvedBody.arena.length := by
      rw [h.arena_resolvedBody hdangling hroom, List.length_map]
      exact Script.place?_lt hdangling hp
    refine ⟨p, hp, ?_⟩
    rw [Script.target, hp]
    exact hsequential.idAt?_eq hlt
  have hhandlers : a.resolvedBody.updateOffsets.handlers =
      s.handlers.map (HandlerSpec.resolved s.target) := by
    change a.body.handlers ++ a.handlers.map (HandlerSpec.resolved a.target) = _
    rw [h.emitted.handlers, h.emitted.specs, h.target_eq hdangling, List.nil_append]
  have hlocals : a.resolvedBody.updateOffsets.locals = a.body.locals := locals_fill _ _
  exact
    { order_eq := h.order_resolvedBody
      code := hcode
      laidOut := fun hsize => laidOut_updateOffsets hvalid <| by
        rwa [codeSize, startAt_updateOffsets hvalid] at hsize
      targets_eq := htargets
      handlers_eq := hhandlers
      locals_declared := fun hauto p i hi index hindex => by
        obtain ⟨e, he, hlocal⟩ := hcode.exists_emission_of_local? hi hindex
        rw [hlocals]
        exact h.declares.declared hauto e he index hlocal
      valid := arenaFault?_eq_none_iff.mpr (hvalid.sweep _ _)
      references_live := fun hraw id hid => by
        obtain ⟨label, hlabel, rfl⟩ := hcode.exists_label_of_reference hhandlers hraw hid
        obtain ⟨p, -, hp⟩ := htargets label hlabel
        exact mem_order_iff.mpr ⟨p, hp⟩ }

/-- **Assembling does what the calls ask for.**  A call that fails leaves the assembler as it was.
After any calls, those that failed included, finishing reports the first label that no instruction
follows; without one it reports the first label that is used and was not given, looking at branches,
switches and handlers in this order; and otherwise it returns the body of the script, which is
described by `Assembled` as long as the identities of the instructions are distinct. -/
theorem finish_meets_script (s : Script) :
    (∀ (a : Assembler) call error, (a.attempt call).1 = .error error → (a.attempt call).2 = a) ∧
    match s.danglingLabel?, s.missingLabel? with
    | some name, _ => (new.performAll s).finish = .error (.malformed (.danglingLabel name))
    | none, some name => (new.performAll s).finish = .error (.undefinedLabel name)
    | none, none => ∃ b, (new.performAll s).finish = .ok b ∧
        (s.emissions.length ≤ UInt32.size → Assembled s b) := by
  refine ⟨fun a call error herror => ?_, ?_⟩
  · have hturn := turn_attempt a call
    revert herror hturn
    generalize a.attempt call = result
    intro herror hturn
    cases hturn with
    | refuses => rfl
    | _ => exact absurd herror nofun
  · have htracks := tracks_performAll s
    have hfinish := htracks.finish_eq
    cases hdangling : s.danglingLabel? with
    | some name => simpa only [hdangling] using hfinish
    | none =>
        cases hmissing : s.missingLabel? with
        | some name => simpa only [hdangling, hmissing] using hfinish
        | none =>
            simp only [hdangling, hmissing] at hfinish
            exact ⟨_, hfinish, htracks.assembled hdangling hmissing⟩

/-- A dispatch between two labels of one instruction, a branch forward and one back, and a handler.
Five calls fail: an empty switch, an opcode without its operand, a branch that is none, and two
labels that are given again. -/
def dispatching : Script :=
  [.label "start", .emit (.loadLocal 5), .switch ["one", "two", "start"], .switch [],
    .op .ldstr, .label "one", .label "two", .label "start", .label "one", .op .nop,
    .branch .nop "start", .branch (.branch .brtrue .long) "end",
    .branch (.branch .br .long) "start", .label "end", .op .ret,
    .protect ⟨.catchClause, "start", "one", "two", some "end", none, some "System.Exception"⟩]

/-- Labels of one instruction share a target, branches lead forward and back, calls that fail leave
no trace, and every reference is live. -/
theorem dispatching_assembled :
    (new.attempt (.switch [])).2 = new ∧
    ∃ b, (new.performAll dispatching).finish = .ok b ∧
      b.order = [⟨0⟩, ⟨1⟩, ⟨2⟩, ⟨3⟩, ⟨4⟩, ⟨5⟩] ∧
      (b.at? 1).map Instruction.targets = some [⟨2⟩, ⟨2⟩, ⟨0⟩] ∧
      (b.at? 3).map Instruction.targets = some [⟨5⟩] ∧
      (b.at? 4).map Instruction.targets = some [⟨0⟩] ∧
      b.handlers = [.catching ⟨0⟩ ⟨2⟩ ⟨2⟩ (some ⟨5⟩) "System.Exception"] ∧
      b.LocalsDeclared ∧ b.arenaFault? = none ∧ ∀ id ∈ b.references, id ∈ b.order := by
  obtain ⟨hfailed, hfinish⟩ := finish_meets_script dispatching
  have hdangling : dispatching.danglingLabel? = none := by decide
  have hmissing : dispatching.missingLabel? = none := by decide
  rw [hdangling, hmissing] at hfinish
  obtain ⟨b, hb, hassembled⟩ := hfinish
  have hassembled := hassembled (by decide)
  have htargets : ∀ p, (b.at? p).map Instruction.targets =
      dispatching.emissions[p]?.map fun e => (e.resolved dispatching.target).targets := fun p => by
    rw [hassembled.code p, Option.map_map]
    rfl
  refine ⟨hfailed new (.switch []) _ rfl, b, hb, hassembled.order_eq.trans (by decide),
    (htargets 1).trans (by decide), (htargets 3).trans (by decide), (htargets 4).trans (by decide),
    hassembled.handlers_eq.trans (by decide), hassembled.locals_declared (by simp [dispatching]),
    hassembled.valid, hassembled.references_live fun i hi => ?_⟩
  obtain rfl : i = .loadLocal 5 := by simpa [dispatching] using hi
  decide

/-! ### Scripts that are too long -/

/-- Two tables with the same entries, and a return. -/
def twoTables (ids : List InstrId) : Script :=
  [.emit (.of .switch (.switch ids)), .emit (.of .switch (.switch ids)), .op .ret]

/-- The tables are emitted and finished, whatever their length. -/
theorem exists_assembled_twoTables (ids : List InstrId) :
    ∃ b, (new.performAll (twoTables ids)).finish = .ok b ∧ Assembled (twoTables ids) b := by
  have htracks := tracks_performAll (twoTables ids)
  exact ⟨_, htracks.finish_eq, htracks.assembled rfl rfl (show 3 ≤ UInt32.size by decide)⟩

/-- The return comes behind both: an opcode, a count and four bytes for each entry, twice.  The
sizes are exact, whatever the stored offsets say. -/
theorem Assembled.startAt_twoTables {ids : List InstrId} {b : MethodBody}
    (h : Assembled (twoTables ids) b) : b.startAt 2 = 10 + 8 * ids.length := by
  have hsize : ∀ p, b.sizeAt p = match (twoTables ids).emissions[p]? with
      | some e => (e.resolved (twoTables ids).target).size
      | none => 0 := by
    intro p
    rw [sizeAt, h.code p]
    cases (twoTables ids).emissions[p]? <;> rfl
  have hfirst : b.sizeAt 0 = 1 + (4 + 4 * ids.length) := hsize 0
  have hsecond : b.sizeAt 1 = 1 + (4 + 4 * ids.length) := hsize 1
  rw [startAt_succ, startAt_succ, startAt_zero, hfirst, hsecond]
  omega

/-- Tables of two gigabytes each. -/
def longTables : Script := twoTables (List.replicate 536870912 ⟨0⟩)

/-- More instructions than there are identities. -/
def manyReturns : Script := List.replicate 4294967297 (.op .ret)

/-- Instructions without labels are numbered in their order, however many they are.  Nothing dangles
and nothing is missing, so that finishing cannot fail. -/
theorem exists_order_of_returns (n : Nat) :
    ∃ b, (new.performAll (List.replicate n (.op .ret))).finish = .ok b ∧
      b.order = (List.range n).map InstrId.nth := by
  have htracks := tracks_performAll (List.replicate n (.op .ret))
  have hemissions : Script.emissions (List.replicate n (.op .ret)) =
      List.replicate n (.plain .ret) := by
    rw [Script.emissions, List.filterMap_replicate]
    rfl
  have hlabels : Script.labels (List.replicate n (.op .ret)) = [] := by
    rw [Script.labels, List.filterMap_replicate]
    rfl
  have hused : Script.usedLabels (List.replicate n (.op .ret)) = [] := by
    rw [Script.usedLabels, hemissions, Script.handlers, List.filterMap_replicate,
      List.filterMap_replicate, List.filterMap_replicate]
    rfl
  have hfinish := htracks.finish_eq
  rw [Script.danglingLabel?, Script.missingLabel?, hlabels, hused] at hfinish
  refine ⟨_, hfinish, ?_⟩
  have horder := htracks.order_resolvedBody
  rwa [hemissions, List.length_replicate] at horder

/-- **The bounds are needed.**  Behind tables of four gigabytes an offset is not the sum of the
sizes before it, and of more instructions than there are identities two have the same one. -/
theorem long_scripts_wrap :
    (∃ b, (new.performAll longTables).finish = .ok b ∧ b.arenaFault? = none ∧
      b.at? 2 = some { Instruction.ret with offset := 10 } ∧ b.startAt 2 = 4294967306) ∧
    ∃ b, (new.performAll manyReturns).finish = .ok b ∧ b.arenaFault? ≠ none := by
  constructor
  · obtain ⟨b, hfinish, hassembled⟩ :=
      exists_assembled_twoTables (List.replicate 536870912 ⟨0⟩)
    have hstart : b.startAt 2 = 4294967306 := by
      rw [hassembled.startAt_twoTables, List.length_replicate]
    refine ⟨b, hfinish, hassembled.valid, ?_, hstart⟩
    rw [hassembled.code 2, hstart]
    rfl
  · obtain ⟨b, hfinish, horder⟩ := exists_order_of_returns 4294967297
    refine ⟨b, hfinish, fun hfault => ?_⟩
    have hnodup := (arenaFault?_eq_none_iff.mp hfault).nodup
    rw [horder] at hnodup
    have hsame : InstrId.nth 0 = InstrId.nth 4294967296 := rfl
    have hplaces := List.inj_on_of_nodup_map hnodup (List.mem_range.mpr (by decide))
      (List.mem_range.mpr (by decide)) hsame
    exact absurd hplaces (by decide)

end Assembler

end CilRepair
