import CilRepair.Proofs.Lists
import CilRepair.Proofs.Scripts

/-!
# What an assembler knows

An assembler that has performed a script knows the script: what it has emitted, where the labels
are, which of them wait and which operands are missing.  This is an invariant of single calls, and
failed calls keep it because they change nothing.

* `Turn`, `turn_attempt` — what one call can do.
* `Emitted`, `Labelled`, `DeclaresLocals` — what an assembler knows of a script.
* `Tracks` — all of it; `tracks_performAll` says that it holds after every script.

## Design notes

Calls are kept as a script, and a script is read from its end: what the assembler knows after one
more call is what it knew before, changed by that call.  `Turn` lists what a call can do, so that
each part of the invariant considers outcomes and not every call of the interface.

The three parts of `Tracks` are kept apart because each of them is left alone by most calls.  A call
that neither emits nor registers leaves what is emitted, and one that emits nothing and names
nothing new leaves the labels; the two lemmas called `idle` say so once.

Identities are counted by the script, with `InstrId.nth`, and may start again behind the last of
them.  Nothing here depends on that; whoever asks for distinct identities has to bound the script.
-/

namespace CilRepair

namespace Assembler

open Emission MethodBody

/-! ### One call -/

variable {a : Assembler} {s : Script} {call : Call} {e : Emission} {es : List Emission}
  {specs : List HandlerSpec}

/-- The assembler after an emission: the operand that it waits for is on record. -/
def emission (a : Assembler) (e : Emission) : Assembler :=
  { a.emit e.placeholder with
    branches := a.branches ++ (e.branch?.map (a.body.fresh, ·)).toList
    switches := a.switches ++ (e.switch?.map (a.body.fresh, ·)).toList }

/-- **What a call can do,** with its outcome and the assembler after it. -/
inductive Turn (a : Assembler) : Call → Except Error Unit × Assembler → Prop
  | emits {call : Call} {e : Emission} (h : call.emission? = some e) :
      Turn a call (.ok (), a.emission e)
  | refuses {call : Call} {error : Error} (hnone : call.emission? = none)
      (hhandler : call.handler? = none) (hauto : call ≠ .noAutoLocals)
      (hlabel : ∀ name, call.label? = some name → a.isTaken name = true) :
      Turn a call (.error error, a)
  | names {name : String} (h : a.isTaken name = false) :
      Turn a (.label name) (.ok (), { a with pending := a.pending ++ [name] })
  | protects {handler : HandlerSpec} :
      Turn a (.protect handler) (.ok (), { a with handlers := a.handlers ++ [handler] })
  | declares {sig : TypeSig} :
      Turn a (.declareLocal sig)
        (.ok (), { a with body := { a.body with locals := a.body.locals ++ [⟨none, sig⟩] } })
  | bounds {size : UInt16} :
      Turn a (.maxStack size) (.ok (), { a with body := { a.body with maxStack := size } })
  | leavesLocals : Turn a .noAutoLocals (.ok (), { a with autoLocals := false })

/-- An instruction that is given whole is emitted. -/
theorem attempt_emit (i : Instruction) : a.attempt (.emit i) = (.ok (), a.emit i) := rfl

/-- An opcode alone is refused if it needs an operand. -/
theorem attempt_op (opcode : OpCode) :
    a.attempt (.op opcode) =
      if opcode.operandKind = .absent then (.ok (), a.emit (.bare opcode))
      else (.error (.malformed (.operandRequired opcode.mnemonic)), a) := by
  rw [attempt, perform]
  split <;> rfl

/-- A branch to a label is emitted with an operand to be filled in, if the opcode is a branch at
all. -/
theorem attempt_branch (opcode : OpCode) (name : String) :
    a.attempt (.branch opcode name) =
      if opcode.isBranch then
        (.ok (), { a.emit (.of opcode (.target unresolved)) with
          branches := a.branches ++ [(a.body.fresh, name)] })
      else (.error (.malformed (.notABranch opcode.mnemonic)), a) := by
  rw [attempt, perform]
  split <;> rfl

/-- So is a table of labels, unless it is empty. -/
theorem attempt_switch (names : List String) :
    a.attempt (.switch names) =
      if names.isEmpty then (.error (.malformed .emptySwitch), a)
      else (.ok (), { a.emit (.of .switch (.switch [])) with
        switches := a.switches ++ [(a.body.fresh, names)] }) := by
  rw [attempt, perform]
  split <;> rfl

/-- A label waits for the next instruction, unless it is taken already, bound or waiting. -/
theorem attempt_label (name : String) :
    a.attempt (.label name) =
      if a.isTaken name then (.error (.duplicateLabel name), a)
      else (.ok (), { a with pending := a.pending ++ [name] }) := by
  have hrun : a.attempt (.label name) =
      ((if a.isTaken name then throw (.duplicateLabel name)
        else modify fun a => { a with pending := a.pending ++ [name] } :
          Action Unit).run.run a).run := rfl
  rw [hrun]
  split <;> rfl

theorem emission_plain (i : Instruction) : a.emission (.plain i) = a.emit i := by
  simp [emission, placeholder, branch?, switch?, emit]

theorem emission_branch (opcode : OpCode) (name : String) :
    a.emission (.branch opcode name) =
      { a.emit (.of opcode (.target unresolved)) with
        branches := a.branches ++ [(a.body.fresh, name)] } := by
  simp [emission, placeholder, branch?, switch?, emit]

theorem emission_switch (names : List String) :
    a.emission (.switch names) =
      { a.emit (.of .switch (.switch [])) with
        switches := a.switches ++ [(a.body.fresh, names)] } := by
  simp [emission, placeholder, branch?, switch?, emit]

/-- **The calls do what a turn can do.**  One case for each kind of call; this is the only place at
which calls are opened. -/
theorem turn_attempt (a : Assembler) (call : Call) : Turn a call (a.attempt call) := by
  cases call with
  | noAutoLocals => exact .leavesLocals
  | maxStack size => exact .bounds
  | declareLocal sig => exact .declares
  | protect handler => exact .protects
  | label name =>
      rw [attempt_label]
      split
      · next h => exact .refuses rfl rfl nofun fun other hother => Option.some.inj hother ▸ h
      · next h => exact .names (Bool.eq_false_iff.mpr h)
  | emit i =>
      rw [attempt_emit, ← emission_plain]
      exact .emits rfl
  | op opcode =>
      rw [attempt_op]
      split
      · next h =>
          rw [← emission_plain]
          exact .emits (if_pos h)
      · next h => exact .refuses (if_neg h) rfl nofun nofun
  | branch opcode name =>
      rw [attempt_branch]
      split
      · next h =>
          rw [← emission_branch]
          exact .emits (if_pos h)
      · next h => exact .refuses (if_neg h) rfl nofun nofun
  | switch names =>
      rw [attempt_switch]
      split
      · next h => exact .refuses (if_pos h) rfl nofun nofun
      · next h =>
          rw [← emission_switch]
          exact .emits (if_neg h)

/-! ### What is emitted -/

/-- **The assembler has emitted these instructions and registered these handlers.** -/
structure Emitted (es : List Emission) (specs : List HandlerSpec) (a : Assembler) : Prop where
  arena : a.body.arena = es.map placeholder
  order : a.body.order = (List.range es.length).map InstrId.nth
  handlers : a.body.handlers = []
  branches : a.branches = numbered branch? es
  switches : a.switches = numbered switch? es
  specs : a.handlers = specs

theorem Emitted.fresh_eq (h : Emitted es specs a) : a.body.fresh = InstrId.nth es.length := by
  rw [fresh, h.arena, List.length_map, InstrId.nth]

/-- **One more emission** is recorded with the identity that the instruction gets.  The records are
written at the end, and the identity is the number of those before. -/
theorem Emitted.emission (h : Emitted es specs a) (e : Emission) :
    Emitted (es ++ [e]) specs (a.emission e) where
  arena := by
    rw [List.map_append, ← h.arena]
    rfl
  order := by
    rw [List.length_append, List.length_singleton, List.range_succ, List.map_append, ← h.order]
    exact congrArg (a.body.order ++ [·]) h.fresh_eq
  handlers := h.handlers
  branches := by
    rw [numbered_concat, ← h.branches, ← h.fresh_eq]
    rfl
  switches := by
    rw [numbered_concat, ← h.switches, ← h.fresh_eq]
    rfl
  specs := h.specs

/-- A call that emits nothing and registers nothing leaves what is emitted, whether it was refused
or did something else. -/
theorem Emitted.idle (h : Emitted s.emissions s.handlers a) (hnone : call.emission? = none)
    (hhandler : call.handler? = none) :
    Emitted (Script.emissions (s ++ [call])) (Script.handlers (s ++ [call])) a := by
  rw [Script.emissions_concat, Script.handlers_concat, hnone, hhandler, Option.toList_none,
    Option.toList_none, List.append_nil, List.append_nil]
  exact h

/-- Whatever a call did, the record is that of the script with the call.  A call that was refused
emits nothing, in the script as well as in the assembler. -/
theorem Emitted.turn (h : Emitted s.emissions s.handlers a)
    {result : Except Error Unit × Assembler} (hturn : Turn a call result) :
    Emitted (Script.emissions (s ++ [call])) (Script.handlers (s ++ [call])) result.2 := by
  cases hturn with
  | emits hemits =>
      rw [Script.emissions_concat, Script.handlers_concat, hemits, Call.handler?_of_emits hemits,
        Option.toList_none, List.append_nil]
      exact h.emission _
  | protects =>
      have hsame : ∀ handler, Script.emissions (s ++ [.protect handler]) = s.emissions :=
        fun handler => (Script.emissions_concat s _).trans (List.append_nil _)
      rw [hsame, Script.handlers_concat]
      exact { h with specs := congrArg (· ++ _) h.specs }
  | refuses hnone hhandler => exact h.idle hnone hhandler
  | names | declares | bounds | leavesLocals => exact Emitted.idle { h with } rfl rfl

/-! ### Where labels are -/

/-- **The assembler knows the labels of a script.**  A label that waits stands for the instruction
that comes next. -/
structure Labelled (s : Script) (a : Assembler) : Prop where
  known : ∀ name, (a.labels ++ a.pending.map (·, InstrId.nth s.emissions.length)).lookup name =
    (s.place? name).map InstrId.nth
  waiting : a.pending.head? = s.danglingLabel?

/-- A label is taken exactly if the script has given it. -/
theorem Labelled.isTaken_iff (h : Labelled s a) {name : String} :
    a.isTaken name = true ↔ (s.place? name).isSome = true := by
  have hknown := h.known name
  rw [List.lookup_append, lookup_map_const] at hknown
  rw [← Option.isSome_map (f := InstrId.nth), ← hknown, isTaken, Bool.or_eq_true,
    Option.isSome_or, Bool.or_eq_true, List.contains_iff_mem]
  by_cases hmem : name ∈ a.pending <;> simp [hmem]

/-- A call that emits nothing and gives no new label leaves all labels where they are. -/
theorem Labelled.idle (h : Labelled s a) (hnone : call.emission? = none)
    (hlabel : ∀ name, call.label? = some name → (s.place? name).isSome = true) :
    Labelled (s ++ [call]) a where
  known name := by
    rw [Script.emissions_concat, hnone, Option.toList_none, List.append_nil, h.known,
      Script.place?_of_given (hlabel name)]
  waiting := by rw [Script.danglingLabel?_of_idle hnone hlabel, h.waiting]

/-- **An emission binds the labels that wait.**  They stood for the next instruction, and that is
what they are bound to, so nothing that is known of a label changes. -/
theorem Labelled.emission (h : Labelled s a)
    (hfresh : a.body.fresh = InstrId.nth s.emissions.length) (hemits : call.emission? = some e) :
    Labelled (s ++ [call]) (a.emission e) where
  known name := by
    rw [Script.place?_of_label?_eq_none (Call.label?_of_emits hemits), ← h.known, ← hfresh]
    exact congrArg (List.lookup name) (List.append_nil _)
  waiting := (Script.danglingLabel?_of_emits hemits).symm

/-- **A new label waits.**  It is found behind all others, and hides none, since it is free.  Until
something is emitted it stands for the place behind the last emission. -/
theorem Labelled.names (h : Labelled s a) {name : String} (hfree : a.isTaken name = false) :
    Labelled (s ++ [.label name]) { a with pending := a.pending ++ [name] } := by
  have hplace : s.place? name = none := by
    by_contra hsome
    rw [h.isTaken_iff.mpr (Option.isSome_iff_ne_none.mpr hsome)] at hfree
    exact absurd hfree (by simp)
  refine ⟨fun other => ?_, ?_⟩
  · rw [Script.emissions_concat, Script.place?_concat]
    change (a.labels ++ (a.pending ++ [name]).map
      (·, InstrId.nth (s.emissions ++ []).length)).lookup other = _
    rw [List.append_nil, List.map_append, ← List.append_assoc, List.lookup_append, h.known]
    cases hother : s.place? other with
    | some n => rfl
    | none =>
        rw [lookup_map_const]
        by_cases heq : other = name
        · simp [Call.label?, heq]
        · have hne : name ≠ other := fun hname => heq hname.symm
          simp [Call.label?, heq, hne]
  · rw [Script.danglingLabel?_of_names hplace, ← h.waiting]
    exact List.head?_append

/-- Whatever a call did, the labels are those of the script with the call. -/
theorem Labelled.turn (h : Labelled s a) (hfresh : a.body.fresh = InstrId.nth s.emissions.length)
    {result : Except Error Unit × Assembler} (hturn : Turn a call result) :
    Labelled (s ++ [call]) result.2 := by
  cases hturn with
  | emits hemits => exact h.emission hfresh hemits
  | names hfree => exact h.names hfree
  | refuses hnone _ _ hlabel =>
      exact h.idle hnone fun name hname => h.isTaken_iff.mp (hlabel name hname)
  | protects | declares | bounds | leavesLocals =>
      exact Labelled.idle ⟨h.known, h.waiting⟩ rfl nofun

/-! ### Which locals there are -/

/-- **Every local that was used is declared,** unless the script has told the assembler not to. -/
structure DeclaresLocals (s : Script) (a : Assembler) : Prop where
  auto : Call.noAutoLocals ∉ s → a.autoLocals = true
  declared : Call.noAutoLocals ∉ s → ∀ e ∈ s.emissions, ∀ index,
    e.placeholder.local? = some index → index.toNat < a.body.locals.length

/-- An emission takes no local away, -/
theorem length_locals_le (a : Assembler) (i : Instruction) :
    a.body.locals.length ≤ (a.localsAfter i).length := by
  rw [localsAfter]
  split
  · split
    · rw [touchLocal, List.length_append]
      exact Nat.le_add_right _ _
    · exact Nat.le_refl _
  · exact Nat.le_refl _

/-- and declares the one that the instruction uses, if the assembler is to declare locals. -/
theorem lt_length_localsAfter {i : Instruction} {index : UInt16} (hauto : a.autoLocals = true)
    (h : i.local? = some index) : index.toNat < (a.localsAfter i).length := by
  have hafter : a.localsAfter i = a.touchLocal index := by
    simp only [localsAfter, h, hauto, if_true]
  rw [hafter, touchLocal, List.length_append, List.length_replicate]
  omega

/-- Locals stay declared, and those that a call uses are declared.  Locals are only added at the
end, so that what was declared before keeps its number. -/
theorem DeclaresLocals.turn (h : DeclaresLocals s a) {result : Except Error Unit × Assembler}
    (hturn : Turn a call result) : DeclaresLocals (s ++ [call]) result.2 := by
  have hbefore : Call.noAutoLocals ∉ s ++ [call] → Call.noAutoLocals ∉ s :=
    fun hnot hmem => hnot (List.mem_append_left _ hmem)
  refine ⟨fun hnot => ?_, fun hnot e he index hindex => ?_⟩
  · have hauto := h.auto (hbefore hnot)
    cases hturn with
    | leavesLocals => exact absurd (List.mem_append_right _ List.mem_cons_self) hnot
    | emits | refuses | names | protects | declares | bounds => exact hauto
  · have hold := h.declared (hbefore hnot) e
    rw [Script.emissions_concat, List.mem_append, Option.mem_toList] at he
    cases hturn with
    | emits hemits =>
        rcases he with he | he
        · exact (hold he index hindex).trans_le (a.length_locals_le _)
        · obtain rfl := Option.some.inj (hemits.symm.trans he)
          exact lt_length_localsAfter (h.auto (hbefore hnot)) hindex
    | declares =>
        have hlt := hold (he.resolve_right nofun) index hindex
        exact hlt.trans_le (List.length_append ▸ Nat.le_add_right _ _)
    | refuses hnone =>
        exact hold (he.resolve_right fun hsome => nomatch hnone.symm.trans hsome) index hindex
    | names | protects | bounds | leavesLocals =>
        exact hold (he.resolve_right nofun) index hindex

/-! ### All calls -/

/-- The assembler after all calls of a script. -/
def performAll (a : Assembler) (s : Script) : Assembler :=
  s.foldl (fun a call => (a.attempt call).2) a

/-- **The assembler knows the script.** -/
structure Tracks (s : Script) (a : Assembler) : Prop where
  emitted : Emitted s.emissions s.handlers a
  labelled : Labelled s a
  declares : DeclaresLocals s a

theorem tracks_new : Tracks [] new where
  emitted := ⟨rfl, rfl, rfl, rfl, rfl, rfl⟩
  labelled := ⟨fun _ => rfl, rfl⟩
  declares := ⟨fun _ => rfl, fun _ _ he => absurd he List.not_mem_nil⟩

/-- **One call keeps the invariant.** -/
theorem Tracks.attempt (h : Tracks s a) (call : Call) :
    Tracks (s ++ [call]) (a.attempt call).2 where
  emitted := h.emitted.turn (turn_attempt a call)
  labelled := h.labelled.turn h.emitted.fresh_eq (turn_attempt a call)
  declares := h.declares.turn (turn_attempt a call)

/-- **A script keeps it.**  By induction from the last call. -/
theorem tracks_performAll (s : Script) : Tracks s (new.performAll s) := by
  induction s using List.reverseRecOn with
  | nil => exact tracks_new
  | append_singleton s call ih =>
      rw [performAll, List.foldl_append]
      exact ih.attempt call

end Assembler

end CilRepair
