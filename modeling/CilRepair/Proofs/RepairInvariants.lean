import CilRepair.Proofs.RepairSteps

/-!
# What repair establishes

Repair first resolves references (`relinked`), then closes the body and declares its locals.  The
order matters: a branch at the end that loses its destination stops being terminal only when it is
relinked, and a handler that is open at its end is judged before a return is appended behind it.
Both are harmless, because appending keeps every place and only moves the end outwards.

* `intact_repair` — a repaired body is intact, which is more than sound.
* `repair_eq_self_iff` — the report is empty exactly if the body was intact, and then nothing
  changes.
* `repair_establishes_invariants`, `repair_idempotent_and_exact` — the two together, with and
  without canonical branch widths.

The one thing that can go wrong is the arena.  A return takes a new identity, and identities have
thirty-two bits; in an arena of `2 ^ 32` slots the new identity is that of slot zero.  This is why
the theorems ask for room if a return is appended, and `fullBody_repaired_again` shows that they
have to.

## Design notes

Everything goes through `Intact`, which asks for more than soundness: every branch and every table
also has an operand that names instructions.  It is chosen so that both halves can be proved of it.
A repaired body has it, and it is exactly what the report is empty for; idempotence is then one
line, where soundness alone would not do.

Canonical widths are added at the end.  They leave the code as it is, so what is intact stays
intact, and a change in the code cannot be undone by them, which is why the report remains exact.
-/

namespace CilRepair

theorem Instruction.Settled.mono {i : Instruction} {live live' : InstrId → Prop}
    (hsub : ∀ id, live id → live' id) (h : i.Settled live) : i.Settled live' :=
  ⟨fun id hid => hsub id (h.targets_live id hid), h.aimed⟩

theorem Instruction.settled_ret (live : InstrId → Prop) : Instruction.ret.Settled live :=
  ⟨fun _ hid => absurd hid List.not_mem_nil, fun h => absurd h (by decide)⟩

namespace MethodBody

variable {b : MethodBody} {p : Nat} {i : Instruction}

/-! ### References -/

/-- The body with its references repaired, before it is closed. -/
def relinked (b : MethodBody) : MethodBody := b.repairTargets.1.repairHandlers.1

@[simp] theorem order_relinked (b : MethodBody) : b.relinked.order = b.order := by
  simp [relinked]

@[simp] theorem locals_relinked (b : MethodBody) : b.relinked.locals = b.locals := by
  simp [relinked]

@[simp] theorem length_relinked (b : MethodBody) : b.relinked.length = b.length := by
  simp [relinked]

@[simp] theorem length_arena_relinked (b : MethodBody) :
    b.relinked.arena.length = b.arena.length := by
  simp [relinked]

theorem ArenaValid.relinked (hb : b.ArenaValid) : b.relinked.ArenaValid :=
  hb.repairTargets.repairHandlers

/-- What stands at a place after relinking is the repaired instruction, since handlers are no
code. -/
theorem at?_relinked (hb : b.ArenaValid) (hi : b.at? p = some i) :
    b.relinked.at? p = some (repairOperand b.isLive (b.fallback p) i).1 := by
  rw [relinked, at?_repairHandlers, at?_repairTargets hb hi]

/-- **References are resolved once they are relinked.**  Operands by the first step, handlers by the
second; neither changes what is live. -/
theorem resolved_relinked (hb : b.ArenaValid) : b.relinked.Resolved where
  settled p j hj := by
    rw [relinked, at?_repairHandlers] at hj
    obtain ⟨i, hi, rfl⟩ := exists_of_at?_repairTargets hb hj
    refine (settled_repairOperand (isLive_fallback (at?_lt hi)) i).mono fun id hid => ?_
    rw [order_relinked]
    exact isLive_iff.mp hid
  ordered h hh := by
    obtain ⟨hord, hfilter⟩ := ordered_of_mem_repairHandlers hb.repairTargets hh
    refine ⟨hord.extend ?_, by simpa using hfilter⟩
    simp

/-! ### Closing the body -/

/-- A return at the end resolves no reference and breaks none.  It is behind all handlers, of which
an open one then reaches one place further. -/
theorem Resolved.push_ret (hb : b.ArenaValid) (hroom : b.arena.length < UInt32.size)
    (h : b.Resolved) : (b.push .ret).Resolved where
  settled p i hi := by
    have hp : p < b.length + 1 := by simpa [length] using at?_lt hi
    rcases Nat.lt_succ_iff_lt_or_eq.mp hp with hlt | rfl
    · rw [at?_push_of_lt hb _ hlt] at hi
      exact (h.settled p i hi).mono fun id hid => List.mem_append_left _ hid
    · rw [at?_push_length _ hroom] at hi
      obtain rfl : Instruction.ret = i := Option.some.inj hi
      exact Instruction.settled_ret _
  ordered x hx :=
    ⟨(h.ordered x hx).1.extend (List.prefix_append _ _),
      fun id hid => List.mem_append_left _ ((h.ordered x hx).2 id hid)⟩

/-- Behind a return control does not run off the end. -/
theorem endsTerminal_push_ret (hroom : b.arena.length < UInt32.size) :
    (b.push .ret).endsTerminal = true := by
  rw [endsTerminal_iff]
  refine ⟨.ret, ?_, by decide⟩
  have hlength : (b.push .ret).length - 1 = b.length := by simp [length]
  rw [hlength, at?_push_length _ hroom]

/-- **A closed body** is valid, still resolved, and ends with a terminal instruction. -/
theorem Resolved.terminate (hb : b.ArenaValid) (h : b.Resolved)
    (hroom : b.endsTerminal = true ∨ b.arena.length < UInt32.size) :
    b.terminate.1.ArenaValid ∧ b.terminate.1.Resolved ∧ b.terminate.1.endsTerminal = true := by
  by_cases hend : b.endsTerminal = true
  · rw [terminate_of_endsTerminal hend]
    exact ⟨hb, h, hend⟩
  · have hroom := hroom.resolve_left hend
    rw [terminate_of_not_endsTerminal hend]
    exact ⟨hb.push hroom _, h.push_ret hb hroom, endsTerminal_push_ret hroom⟩

/-- Declaring locals changes no place. -/
theorem Resolved.declareLocals (h : b.Resolved) : b.declareLocals.1.Resolved :=
  ⟨h.settled, fun x hx => ⟨(h.ordered x hx).1.extend (List.prefix_refl _), (h.ordered x hx).2⟩⟩

/-- Every local in use is declared. -/
theorem localsDeclared_declareLocals (b : MethodBody) : b.declareLocals.1.LocalsDeclared := by
  intro p i hi
  rw [length_locals_declareLocals]
  exact requiredLocals_le_iff.mp (Nat.le_max_right _ _) p i hi

/-- Repair is its steps, one after the other, -/
theorem repair_fst (b : MethodBody) :
    b.repair.1 = b.relinked.terminate.1.declareLocals.1 := rfl

/-- and its report is the sum of theirs. -/
theorem repair_snd (b : MethodBody) :
    b.repair.2 = b.repairTargets.2 + b.repairTargets.1.repairHandlers.2 +
      b.relinked.terminate.2 + b.relinked.terminate.1.declareLocals.2 := rfl

/-- **A repaired body is intact.**  A valid arena is part of the statement, and is what the room is
for. -/
theorem intact_repair (hb : b.ArenaValid)
    (hroom : b.relinked.endsTerminal = true ∨ b.arena.length < UInt32.size) :
    b.repair.1.ArenaValid ∧ b.repair.1.Intact := by
  obtain ⟨hvalid, hresolved, hend⟩ :=
    (resolved_relinked hb).terminate hb.relinked (by simpa using hroom)
  rw [repair_fst, intact_iff]
  exact ⟨⟨hvalid.slot_lt, hvalid.nodup⟩, hresolved.declareLocals, hend,
    localsDeclared_declareLocals _⟩

/-! ### The report -/

/-- An intact body is left as it is: each of the four steps finds nothing to do. -/
theorem repair_of_intact (hb : b.ArenaValid) (h : b.Intact) : b.repair = (b, {}) := by
  obtain ⟨⟨hsettled, hordered⟩, hend, hlocals⟩ := intact_iff.mp h
  have htargets : b.repairTargets = (b, {}) := repairTargets_of_settled hb fun p i hi =>
    (hsettled p i hi).mono fun id hid => isLive_iff.mpr hid
  have hhandlers : b.repairHandlers = (b, {}) := repairHandlers_of_ordered hb hordered
  have hterminate : b.terminate = (b, {}) := terminate_of_endsTerminal hend
  have hdeclare : b.declareLocals = (b, {}) :=
    declareLocals_of_declared (requiredLocals_le_iff.mpr hlocals)
  simp only [repair, htargets, hhandlers, hterminate, hdeclare]
  rfl

/-- **The report is empty exactly if the body was intact.**  A sum of counts is empty only if each
of them is, and each step reports nothing exactly if it found nothing. -/
theorem repair_report_iff (hb : b.ArenaValid) : b.repair.2 = {} ↔ b.Intact := by
  refine ⟨fun h => ?_, fun h => by rw [repair_of_intact hb h]⟩
  rw [repair_snd, RepairReport.add_eq_empty_iff, RepairReport.add_eq_empty_iff,
    RepairReport.add_eq_empty_iff] at h
  obtain ⟨⟨⟨htargets, hhandlers⟩, hterminate⟩, hdeclare⟩ := h
  -- A step that had nothing to do left the body as it was, and so the next step saw it unchanged.
  have hsettled := (repairTargets_report_iff hb).mp htargets
  have hself : b.repairTargets.1 = b := by rw [repairTargets_of_settled hb hsettled]
  rw [hself] at hhandlers
  have hordered := (repairHandlers_report_iff hb).mp hhandlers
  have hrelinked : b.relinked = b := by
    rw [relinked, hself, repairHandlers_of_ordered hb hordered]
  rw [hrelinked] at hterminate hdeclare
  have hend := terminate_report_iff.mp hterminate
  rw [terminate_of_endsTerminal hend, declareLocals_report_iff] at hdeclare
  exact intact_iff.mpr ⟨⟨fun p i hi => (hsettled p i hi).mono fun id => isLive_iff.mp, hordered⟩,
    hend, hdeclare⟩

/-! ### The appended return -/

/-- Operands are repaired without a return. -/
theorem appendedReturns_repairTargets (b : MethodBody) :
    b.repairTargets.2.appendedReturns = 0 := by
  have hoperand : ∀ live fallback i, (repairOperand live fallback i).2.appendedReturns = 0 := by
    intro live fallback i
    have hrepair := operandRepair live fallback i
    generalize repairOperand live fallback i = result at hrepair ⊢
    cases hrepair <;> rfl
  unfold repairTargets
  split
  · rfl
  · next last _ =>
      refine view_snd_sweep (repairStep b.isLive last) RepairReport.appendedReturns
        (fun r rest i => ?_) b.order b.arena {}
      change r.appendedReturns + (repairOperand b.isLive _ i).2.appendedReturns = _
      rw [hoperand, Nat.add_zero]

/-- The report counts a return exactly if control could fall off the relinked body.  The other steps
of repair count none. -/
theorem appendedReturns_repair (b : MethodBody) :
    b.repair.2.appendedReturns = if b.relinked.endsTerminal = true then 0 else 1 := by
  have hhandlers : b.repairTargets.1.repairHandlers.2.appendedReturns = 0 := by
    rcases b.repairTargets.1.repairHandlers_cases with ⟨-, h⟩ | ⟨_, _, _, -, -, -, h⟩ <;> rw [h]
  have hterminate : b.relinked.terminate.2.appendedReturns =
      if b.relinked.endsTerminal = true then 0 else 1 := by
    rw [MethodBody.terminate]
    split <;> rfl
  calc b.repair.2.appendedReturns
      = b.repairTargets.2.appendedReturns +
          b.repairTargets.1.repairHandlers.2.appendedReturns +
          b.relinked.terminate.2.appendedReturns + 0 := rfl
    _ = if b.relinked.endsTerminal = true then 0 else 1 := by
      rw [appendedReturns_repairTargets, hhandlers, hterminate, Nat.add_zero, Nat.zero_add]

/-- If no return was appended, the relinked body was closed. -/
theorem endsTerminal_or_room
    (hroom : b.repair.2.appendedReturns = 0 ∨ b.arena.length < UInt32.size) :
    b.relinked.endsTerminal = true ∨ b.arena.length < UInt32.size := by
  refine hroom.imp_left fun h => ?_
  rw [appendedReturns_repair] at h
  by_contra hend
  simp [hend] at h

/-- The repaired sequence is the old one, and a return if control could fall off its end. -/
theorem order_repair (b : MethodBody) :
    b.repair.1.order =
      b.order ++ if b.relinked.endsTerminal = true then [] else [b.relinked.fresh] := by
  rw [repair_fst]
  change b.relinked.terminate.1.order = _
  by_cases h : b.relinked.endsTerminal = true
  · rw [terminate_of_endsTerminal h, if_pos h, order_relinked, List.append_nil]
  · rw [terminate_of_not_endsTerminal h, if_neg h, order_push, order_relinked]

/-! ### With canonical widths -/

/-- Without a change nothing is laid out again. -/
theorem repairAndLayOut_of_intact (hb : b.ArenaValid) (h : b.Intact) :
    b.repairAndLayOut = (b, {}) := by
  simp [repairAndLayOut, repair_of_intact hb h, RepairReport.changed]

/-- Canonical widths do not change the repaired code. -/
theorem erased_repairAndLayOut (b : MethodBody) :
    b.repairAndLayOut.1.erased = b.repair.1.erased := by
  simp only [repairAndLayOut]
  split
  · exact erased_canonicalizeBranches _
  · rfl

theorem arenaValid_of_erased_eq {c : MethodBody} (h : c.erased = b.erased) (hb : b.ArenaValid) :
    c.ArenaValid := by
  rw [← arenaValid_erased, h, arenaValid_erased]
  exact hb

/-- A repaired body stays intact when it is laid out. -/
theorem intact_repairAndLayOut (hb : b.ArenaValid)
    (hroom : b.relinked.endsTerminal = true ∨ b.arena.length < UInt32.size) :
    b.repairAndLayOut.1.ArenaValid ∧ b.repairAndLayOut.1.Intact := by
  obtain ⟨hvalid, hintact⟩ := intact_repair hb hroom
  have hcode := b.erased_repairAndLayOut
  exact ⟨arenaValid_of_erased_eq hcode hvalid, intact_of_erased_eq hcode hintact⟩

/-- **Repair establishes the structural invariants,** with and without canonical branch widths,
whatever the body was like.  Room for one more instruction is all that is asked for besides a valid
arena. -/
theorem repair_establishes_invariants (b : MethodBody) (hb : b.ArenaValid)
    (hroom : b.arena.length < UInt32.size) :
    (b.repair.1.ArenaValid ∧ b.repair.1.Sound) ∧
      (b.repairAndLayOut.1.ArenaValid ∧ b.repairAndLayOut.1.Sound) := by
  obtain ⟨hvalid, hintact⟩ := intact_repair hb (Or.inr hroom)
  obtain ⟨hvalid', hintact'⟩ := intact_repairAndLayOut hb (Or.inr hroom)
  exact ⟨⟨hvalid, hintact.toSound⟩, ⟨hvalid', hintact'.toSound⟩⟩

/-- A body with damage of every kind: a branch, a table and a handler that name what is not there,
transfers without a destination, one of them at the end, and a local that is not declared. -/
def damagedBody : MethodBody where
  arena := [⟨.branch .brtrue .short, .target ⟨9⟩, 0⟩, ⟨.branch .beq .long, .absent, 0⟩,
    ⟨.switch, .switch [⟨0⟩, ⟨5⟩], 0⟩, ⟨.ldloc (.fixed 2), .absent, 0⟩,
    ⟨.branch .leave .short, .absent, 0⟩, ⟨.ret, .absent, 0⟩]
  order := [⟨0⟩, ⟨1⟩, ⟨2⟩, ⟨3⟩, ⟨4⟩]
  locals := []
  handlers := [.finalizing ⟨8⟩ ⟨1⟩ ⟨2⟩ none, .finalizing ⟨1⟩ ⟨1⟩ ⟨2⟩ (some ⟨5⟩)]
  maxStack := 8
  initLocals := true

/-- Damage of every kind is repaired at once. -/
theorem damagedBody_establishes_invariants :
    (damagedBody.ArenaValid ∧ damagedBody.arena.length < UInt32.size) ∧
      (damagedBody.repair.1.ArenaValid ∧ damagedBody.repair.1.Sound) ∧
      (damagedBody.repairAndLayOut.1.ArenaValid ∧ damagedBody.repairAndLayOut.1.Sound) :=
  ⟨⟨by decide, by decide⟩, repair_establishes_invariants damagedBody (by decide) (by decide)⟩

/-- A changed body differs in its code, not only in its layout.  Otherwise it would be as intact as
the repaired body, and nothing would have been reported. -/
theorem erased_repair_ne (hb : b.ArenaValid) (h : b.repair.2.changed = true) :
    b.repair.1.erased ≠ b.erased := by
  intro hcode
  have horder := order_of_erased_eq hcode
  -- A return would have made the sequence longer, so none was appended, and no room was needed.
  have hend : b.relinked.endsTerminal = true := by
    by_contra hend
    rw [order_repair, if_neg hend] at horder
    simpa using congrArg List.length horder
  have hintact : b.Intact := intact_of_erased_eq hcode.symm (intact_repair hb (Or.inl hend)).2
  rw [(repair_report_iff hb).mpr hintact] at h
  exact absurd h (by decide)

/-- **Repair with canonical widths changes a body exactly if its report says so.**  Widths are only
made canonical after a change, and then the code already differs. -/
theorem repairAndLayOut_ne_iff (hb : b.ArenaValid) :
    b.repairAndLayOut.1 ≠ b ↔ b.repairAndLayOut.2.changed = true := by
  have hreport : b.repairAndLayOut.2 = b.repair.2 := rfl
  rw [hreport]
  constructor
  · intro hne
    by_contra hunchanged
    have hintact : b.Intact := by
      rw [← repair_report_iff hb, ← RepairReport.changed_eq_false_iff]
      simpa using hunchanged
    exact hne (congrArg Prod.fst (repairAndLayOut_of_intact hb hintact))
  · intro hchanged heq
    exact erased_repair_ne hb hchanged (by rw [← erased_repairAndLayOut, heq])

/-- **Repair is idempotent and its report is exact.**  The repaired body gives empty reports and is
not touched again, provided that the arena had an identity left for the return, if one was
appended.  The report is empty exactly if there was nothing to repair, and then the body is
untouched; otherwise its code differs, and canonical widths do not hide that. -/
theorem repair_idempotent_and_exact (b : MethodBody) (hb : b.ArenaValid) :
    (b.repair.2.appendedReturns = 0 ∨ b.arena.length < UInt32.size →
      ∀ c, c = b.repair.1 ∨ c = b.repairAndLayOut.1 →
        c.repair = (c, {}) ∧ c.repairAndLayOut = (c, {})) ∧
    (b.repair.2.changed = false ↔ b.Intact) ∧
    (b.repair.2.changed = false → b.repair.1 = b ∧ b.repairAndLayOut.1 = b) ∧
    (b.repair.2.changed = true → b.repair.1 ≠ b ∧ b.repairAndLayOut.1 ≠ b) := by
  have hexact : b.repair.2.changed = false ↔ b.Intact := by
    rw [RepairReport.changed_eq_false_iff, repair_report_iff hb]
  refine ⟨fun hroom c hc => ?_, hexact, fun h => ?_, fun h => ⟨fun heq => ?_, fun heq => ?_⟩⟩
  · have hroom := endsTerminal_or_room hroom
    obtain ⟨hvalid, hintact⟩ : c.ArenaValid ∧ c.Intact := by
      rcases hc with rfl | rfl
      · exact intact_repair hb hroom
      · exact intact_repairAndLayOut hb hroom
    exact ⟨repair_of_intact hvalid hintact, repairAndLayOut_of_intact hvalid hintact⟩
  · have hintact := hexact.mp h
    rw [repair_of_intact hb hintact, repairAndLayOut_of_intact hb hintact]
    exact ⟨rfl, rfl⟩
  · exact erased_repair_ne hb h (by rw [heq])
  · exact erased_repair_ne hb h (by rw [← erased_repairAndLayOut, heq])

/-- Every counter of the damaged body is at work, and the second repair finds nothing. -/
theorem damagedBody_repaired_once :
    damagedBody.ArenaValid ∧
      damagedBody.repair.2 =
        { retargetedBranches := 2, retargetedSwitchTargets := 1, degradedBranches := 1
          repairedBoundaries := 2, droppedHandlers := 1, appendedReturns := 1, addedLocals := 3 } ∧
      damagedBody.repair.1.repair = (damagedBody.repair.1, {}) ∧
      damagedBody.repairAndLayOut.1.repairAndLayOut = (damagedBody.repairAndLayOut.1, {}) ∧
      damagedBody.repair.1 ≠ damagedBody := by
  obtain ⟨hagain, -, -, hdiffers⟩ := repair_idempotent_and_exact damagedBody (by decide)
  have hagain := hagain (Or.inr (by decide))
  exact ⟨by decide, by decide, (hagain _ (Or.inl rfl)).1, (hagain _ (Or.inr rfl)).2,
    (hdiffers (by decide)).1⟩

/-! ### A return without an identity of its own -/

theorem relinked_fullBody : fullBody.relinked = fullBody := rfl

/-- The return that closes the full body is appended under the identity of the `nop`, so that the
sequence names this identity twice. -/
theorem repair_fullBody : fullBody.repair.1 =
    { fullBody with arena := fullBody.arena ++ [.ret], order := [⟨0⟩, ⟨0⟩] } := by
  rw [repair_fst, relinked_fullBody, terminate_of_not_endsTerminal (by decide), push,
    fresh_fullBody]
  rfl

/-- **Without an identity for the return repair is not idempotent.**  The repaired body names the
`nop` twice and still does not end in a return, so that the second repair appends one again. -/
theorem fullBody_repaired_again :
    fullBody.arenaFault? = none ∧ fullBody.repair.1.order = [⟨0⟩, ⟨0⟩] ∧
      fullBody.repair.1.repair.2 ≠ {} ∧ fullBody.repair.1.repair.1 ≠ fullBody.repair.1 := by
  have hopen : ¬ fullBody.repair.1.relinked.endsTerminal = true := by
    rw [repair_fullBody]
    exact Bool.false_ne_true
  have hreport := appendedReturns_repair fullBody.repair.1
  have horder := order_repair fullBody.repair.1
  rw [if_neg hopen] at hreport horder
  refine ⟨arenaFault?_eq_none_iff.mpr arenaValid_fullBody, by rw [repair_fullBody],
    fun hempty => ?_, fun hsame => ?_⟩
  · rw [hempty] at hreport
    exact absurd hreport (by decide)
  · rw [hsame] at horder
    simpa using congrArg List.length horder

end MethodBody

end CilRepair
