import CilRepair.Proofs.LabelResolution

/-!
# Scripts

What a sequence of calls to an assembler asks for, read off the calls alone.  A call emits an
instruction, gives a label, registers a handler or does none of these.  A label stands for the
instruction that is emitted next, so its place is the number of instructions emitted before the
first call that gives it.  Calls that ask for nonsense emit nothing, and a label that is given again
stays where it is.

* `Assembler.Emission` — an instruction with its labels.
* `Assembler.Script.place?` — the place of a label.
* `Assembler.Script.danglingLabel?`, `Assembler.Script.missingLabel?` — what can be wrong.
* `place?_concat`, `danglingLabel?_of_emits`, `danglingLabel?_of_names` — one more call.

## Design notes

Nothing here runs an assembler.  The functions read a list of calls and say what it asks for, and a
reader can check them against the description of the interface without knowing how an assembler
keeps its labels.  That an assembler does what they say is proved elsewhere.

A script grows at its end, and so each function has a law for one more call.  Labels are the only
part where a call has effect on what came before it: an emission takes them out of waiting.
-/

namespace CilRepair

namespace Assembler

/-! ### Emissions -/

/-- **What a call emits:** an instruction as it is, a branch to a label or a switch over labels. -/
inductive Emission
  | plain (i : Instruction)
  | branch (opcode : OpCode) (label : String)
  | switch (labels : List String)

namespace Emission

/-- The instruction while its labels are not known. -/
def placeholder : Emission → Instruction
  | plain i => i
  | branch opcode _ => .of opcode (.target unresolved)
  | switch _ => .of .switch (.switch [])

/-- **The instruction with its labels resolved.** -/
def resolved (target : String → InstrId) : Emission → Instruction
  | plain i => i
  | branch opcode label => .of opcode (.target (target label))
  | switch labels => .of .switch (.switch (labels.map target))

/-- The label of a branch. -/
def branch? : Emission → Option String
  | branch _ label => some label
  | _ => none

/-- The labels of a switch. -/
def switch? : Emission → Option (List String)
  | switch labels => some labels
  | _ => none

/-- To know the labels does not change which local is used. -/
theorem local?_resolved (target : String → InstrId) (e : Emission) :
    (e.resolved target).local? = e.placeholder.local? := by
  cases e with
  | plain i => rfl
  | switch labels => rfl
  | branch opcode label =>
      simp only [resolved, placeholder, Instruction.local?, Instruction.of]
      cases opcode.fixedLocal? <;> rfl

/-- What an emission waits for, with the identities that their instructions get. -/
def numbered {α : Type} (f : Emission → Option α) (es : List Emission) : List (InstrId × α) :=
  es.zipIdx.filterMap fun (e, n) => (f e).map (InstrId.nth n, ·)

section Numbered

variable {α β : Type} (f : Emission → Option α) (es : List Emission)

/-- What one more emission waits for, under the identity that it gets, -/
theorem numbered_concat (e : Emission) :
    numbered f (es ++ [e]) = numbered f es ++ ((f e).map (InstrId.nth es.length, ·)).toList := by
  rw [numbered, numbered, List.zipIdx_append, List.filterMap_append, Nat.zero_add]
  cases hf : f e <;> simp [hf]

/-- what becomes of all of it under a function, -/
theorem map_numbered (g : α → β) :
    (numbered f es).map (Prod.map id g) = numbered (fun e => (f e).map g) es := by
  rw [numbered, numbered, List.map_filterMap]
  simp only [Option.map_map]
  rfl

/-- and all of it without identities. -/
theorem map_snd_numbered : (numbered f es).map Prod.snd = es.filterMap f := by
  induction es using List.reverseRecOn with
  | nil => rfl
  | append_singleton es e ih =>
      rw [numbered_concat, List.map_append, ih, List.filterMap_append]
      cases hf : f e <;> simp [hf]

end Numbered

end Emission

/-! ### Calls -/

namespace Call

/-- **What a call emits.**  A call that does not fit its opcode and a switch without labels emit
nothing. -/
def emission? : Call → Option Emission
  | .emit i => some (.plain i)
  | .op opcode => if opcode.operandKind = .absent then some (.plain (.bare opcode)) else none
  | .branch opcode name => if opcode.isBranch then some (.branch opcode name) else none
  | .switch labels => if labels.isEmpty then none else some (.switch labels)
  | _ => none

/-- The label that a call gives. -/
def label? : Call → Option String
  | .label name => some name
  | _ => none

/-- The handler that a call registers. -/
def handler? : Call → Option HandlerSpec
  | .protect handler => some handler
  | _ => none

/-- A call that emits gives no label, -/
theorem label?_of_emits {call : Call} {e : Emission} (h : call.emission? = some e) :
    call.label? = none := by
  cases call <;> first | rfl | cases h

/-- and registers no handler. -/
theorem handler?_of_emits {call : Call} {e : Emission} (h : call.emission? = some e) :
    call.handler? = none := by
  cases call <;> first | rfl | cases h

end Call

/-! ### Scripts -/

/-- **Calls in their order,** those that fail included. -/
abbrev Script := List Call

namespace Script

variable (s : Script)

/-- The emitted instructions, in their order. -/
def emissions : List Emission := s.filterMap Call.emission?

/-- The registered handlers, in their order. -/
def handlers : List HandlerSpec := s.filterMap Call.handler?

/-- The labels that are given, in their order. -/
def labels : List String := s.filterMap Call.label?

/-- **The place of a label:** the number of instructions that are emitted before it is first
given. -/
def place? (label : String) : Option Nat :=
  (s.findIdx? fun call => call.label? = some label).map fun n => (emissions (s.take n)).length

/-- **The instruction that a label stands for,** and for a label that is not given none at all. -/
def target (label : String) : InstrId := ((s.place? label).map InstrId.nth).getD unresolved

/-- **The labels that are used:** those of branches, then those of switches, then those of
handlers. -/
def usedLabels : List String :=
  s.emissions.filterMap Emission.branch? ++
    ((s.emissions.filterMap Emission.switch?).flatten ++ s.handlers.flatMap HandlerSpec.labels)

/-- The first label that no instruction follows. -/
def danglingLabel? : Option String :=
  s.labels.find? fun label => s.place? label = some s.emissions.length

/-- The first label that is used and not given. -/
def missingLabel? : Option String := s.usedLabels.find? fun label => (s.place? label).isNone

/-! ### Places -/

variable {s} {call : Call} {e : Emission} {label name : String} {n : Nat}

theorem place?_isSome_iff : (s.place? label).isSome = true ↔ label ∈ s.labels := by
  rw [place?, Option.isSome_map, List.findIdx?_isSome, List.any_eq_true, labels,
    List.mem_filterMap]
  simp

/-- No place is behind the next one. -/
theorem place?_le (h : s.place? label = some n) : n ≤ s.emissions.length := by
  obtain ⟨index, -, rfl⟩ := Option.map_eq_some_iff.mp h
  exact ((List.take_sublist index s).filterMap _).length_le

/-- **If no label dangles, an instruction follows every label.** -/
theorem place?_lt (hnone : s.danglingLabel? = none) (h : s.place? label = some n) :
    n < s.emissions.length := by
  have hmem : label ∈ s.labels := place?_isSome_iff.mp (by rw [h]; rfl)
  have hne := List.find?_eq_none.mp hnone label hmem
  rw [decide_eq_true_eq, h, Option.some_inj] at hne
  exact Nat.lt_of_le_of_ne (place?_le h) hne

/-- If no label is missing, every label that is used has a place. -/
theorem exists_place? (hnone : s.missingLabel? = none) (h : label ∈ s.usedLabels) :
    ∃ n, s.place? label = some n := by
  have hsome := List.find?_eq_none.mp hnone label h
  exact Option.ne_none_iff_exists'.mp fun hplace => hsome (Option.isNone_iff_eq_none.mpr hplace)

/-- **What a resolved emission names** is what a label stands for, unless it was emitted so.  Labels
are used by branches and by tables, and the label is found among those that the script uses. -/
theorem mem_targets_resolved {target : String → InstrId} {id : InstrId}
    (hraw : ∀ i, Call.emit i ∈ s → i.targets = []) (he : e ∈ s.emissions)
    (hid : id ∈ (e.resolved target).targets) : ∃ label ∈ s.usedLabels, target label = id := by
  cases e with
  | plain i =>
      obtain ⟨call, hcall, hemits⟩ := List.mem_filterMap.mp he
      have hnone : i.targets = [] := by
        cases call with
        | emit j =>
            obtain rfl : j = i := by simpa [Call.emission?] using hemits
            exact hraw j hcall
        | op opcode =>
            obtain ⟨-, rfl⟩ : _ ∧ Instruction.bare opcode = i := by
              simpa [Call.emission?] using hemits
            rfl
        | _ => simp [Call.emission?] at hemits
      exact absurd hid (hnone ▸ List.not_mem_nil)
  | branch opcode name =>
      refine ⟨name, List.mem_append_left _ (List.mem_filterMap.mpr ⟨_, he, rfl⟩), ?_⟩
      exact (List.mem_singleton.mp hid).symm
  | switch names =>
      obtain ⟨name, hname, rfl⟩ := List.mem_map.mp hid
      refine ⟨name, List.mem_append_right _ (List.mem_append_left _ ?_), rfl⟩
      exact List.mem_flatten.mpr ⟨names, List.mem_filterMap.mpr ⟨_, he, rfl⟩, hname⟩

/-! ### One more call -/

/-- One more call emits what it emits, -/
theorem emissions_concat (s : Script) (call : Call) :
    emissions (s ++ [call]) = s.emissions ++ call.emission?.toList := by
  rw [emissions, List.filterMap_append]
  cases h : call.emission? <;> simp [emissions, h]

/-- registers what it registers, -/
theorem handlers_concat (s : Script) (call : Call) :
    handlers (s ++ [call]) = s.handlers ++ call.handler?.toList := by
  rw [handlers, List.filterMap_append]
  cases h : call.handler? <;> simp [handlers, h]

/-- and gives what it gives, behind all others. -/
theorem labels_concat (s : Script) (call : Call) :
    labels (s ++ [call]) = s.labels ++ call.label?.toList := by
  rw [labels, List.filterMap_append]
  cases h : call.label? <;> simp [labels, h]

/-- **A label keeps its place,** and a new one has the place that comes next. -/
theorem place?_concat (s : Script) (call : Call) (label : String) :
    place? (s ++ [call]) label =
      (s.place? label).or (if call.label? = some label then some s.emissions.length else none) := by
  rw [place?, place?, List.findIdx?_append]
  cases hfound : s.findIdx? fun call => decide (call.label? = some label) with
  | some n =>
      obtain ⟨hlt, -⟩ := List.findIdx?_eq_some_iff_getElem.mp hfound
      simp [List.take_append_of_le_length hlt.le]
  | none => by_cases hcall : call.label? = some label <;> simp [hcall]

/-- A label that the call does not give for the first time keeps its place. -/
theorem place?_of_given (h : call.label? = some label → (s.place? label).isSome = true) :
    place? (s ++ [call]) label = s.place? label := by
  rw [place?_concat]
  split
  · next hcall =>
      obtain ⟨n, hn⟩ := Option.isSome_iff_exists.mp (h hcall)
      rw [hn, Option.some_or]
  · rw [Option.or_none]

/-- A call that gives no label moves none. -/
theorem place?_of_label?_eq_none (h : call.label? = none) :
    place? (s ++ [call]) label = s.place? label :=
  place?_of_given fun hcall => by simp [h] at hcall

/-- **Behind an emission no label dangles,** for every place is before the end then. -/
theorem danglingLabel?_of_emits (h : call.emission? = some e) :
    danglingLabel? (s ++ [call]) = none := by
  rw [danglingLabel?, List.find?_eq_none]
  intro label _ hlabel
  rw [decide_eq_true_eq, place?_of_label?_eq_none (Call.label?_of_emits h), emissions_concat, h,
    Option.toList_some, List.length_append, List.length_singleton] at hlabel
  exact absurd (place?_le hlabel) (Nat.not_succ_le_self _)

/-- What dangles among the labels that were given before is what dangled, unless the call emits. -/
theorem find?_labels_concat (h : call.emission? = none) :
    (s.labels.find? fun label =>
        place? (s ++ [call]) label = some (emissions (s ++ [call])).length) =
      s.danglingLabel? := by
  rw [emissions_concat, h, Option.toList_none, List.append_nil]
  refine List.find?_congr fun label hlabel => ?_
  rw [place?_of_given fun _ => place?_isSome_iff.mpr hlabel]

/-- **A new label dangles,** behind those that did so before. -/
theorem danglingLabel?_of_names (h : s.place? name = none) :
    danglingLabel? (s ++ [.label name]) = s.danglingLabel?.or (some name) := by
  rw [danglingLabel?, labels_concat, List.find?_append, find?_labels_concat rfl]
  congr 1
  rw [emissions_concat]
  simp [Call.label?, Call.emission?, place?_concat, h]

/-- A call that emits nothing and gives no new label leaves what dangles.  A label that was given
before is refused and gives nothing. -/
theorem danglingLabel?_of_idle (hnone : call.emission? = none)
    (hlabel : ∀ name, call.label? = some name → (s.place? name).isSome = true) :
    danglingLabel? (s ++ [call]) = s.danglingLabel? := by
  rw [danglingLabel?, labels_concat, List.find?_append, find?_labels_concat hnone]
  cases hcall : call.label? with
  | none => rw [Option.toList_none, List.find?_nil, Option.or_none]
  | some name =>
      rw [Option.toList_some, List.find?_singleton, place?_of_given (hlabel name),
        emissions_concat, hnone, Option.toList_none, List.append_nil]
      split
      · -- A label that is given again dangles only if it did so before.
        next hdangles =>
          have hbefore : s.danglingLabel?.isSome = true :=
            List.find?_isSome.mpr ⟨name, place?_isSome_iff.mp (hlabel name hcall), hdangles⟩
          obtain ⟨first, hfirst⟩ := Option.isSome_iff_exists.mp hbefore
          rw [hfirst, Option.some_or]
      · rw [Option.or_none]

end Script

end Assembler

end CilRepair
