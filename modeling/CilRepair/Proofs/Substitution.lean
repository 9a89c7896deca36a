import CilRepair.Proofs.Remapping

/-!
# Remapping as a substitution

A remapping goes through a body reference by reference, and what it writes may itself be a key.
The result is nevertheless a substitution, all at once: the sequence of a valid body names no slot
twice, so no reference is met again after it was replaced.

* `Remapping.andThen` — one substitution and then another, as one.
* `MethodBody.SubstitutedBy` — a body that differs in its live references only; there is one such
  body for each function on identities, and they compose.
* `MethodBody.substitutedBy_remap`, `MethodBody.snd_remap` — what a remapping leaves, and what it
  counts.
* `MethodBody.remap_substitutes` — hence a remapping is the substitution, and two of them are one.

## Design notes

`SubstitutedBy` has a clause for every part of a body, so that there is one substituted body.  Then
the law of composition needs no second look at the pass: both sides are the body substituted by the
composed function.

That the substitution is simultaneous is where validity comes in.  In a sequence that names a slot
twice the slot is passed twice, and the second time it already holds replacements.
-/

namespace CilRepair

/-! ### Two substitutions -/

/-- Two substitutions in an operand are one, -/
theorem Operand.mapTargets_mapTargets (f g : InstrId → InstrId) (operand : Operand) :
    (operand.mapTargets f).mapTargets g = operand.mapTargets (g ∘ f) := by
  cases operand with
  | switch ids => exact congrArg switch List.map_map
  | _ => rfl

/-- and so they are in an instruction -/
theorem Instruction.mapTargets_mapTargets (f g : InstrId → InstrId) (i : Instruction) :
    (i.mapTargets f).mapTargets g = i.mapTargets (g ∘ f) :=
  congrArg (fun operand => { i with operand }) (i.operand.mapTargets_mapTargets f g)

/-- and in a handler, whose missing boundaries stay missing. -/
theorem ExceptionHandler.mapBoundaries_mapBoundaries (f g : InstrId → InstrId)
    (h : ExceptionHandler) :
    (h.mapBoundaries f).mapBoundaries g = h.mapBoundaries (g ∘ f) := by
  simp only [mapBoundaries, Option.map_map, Function.comp_apply]

namespace Remapping

variable (m m' : Remapping)

/-- **One substitution and then another,** as one. -/
def andThen : Remapping := m.map (fun entry => (entry.1, m'.apply entry.2)) ++ m'

/-- What both find: the image of what the first one finds, or what the second one finds. -/
theorem find?_andThen (id : InstrId) :
    (m.andThen m').find? id = ((m.find? id).map m'.apply).or (m'.find? id) := by
  rw [find?, andThen, List.lookup_append, lookup_map_value]
  rfl

/-- Applied to an identity, it is one after the other. -/
theorem apply_andThen (id : InstrId) : (m.andThen m').apply id = m'.apply (m.apply id) := by
  simp only [apply, find?_andThen]
  cases m.find? id <;> rfl

end Remapping

namespace MethodBody

variable {b c d : MethodBody} {f g : InstrId → InstrId}

/-! ### Substituted bodies -/

/-- **A body with its live references substituted:** what live instructions and handlers name is
replaced, and nothing else differs, dead slots included. -/
structure SubstitutedBy (b : MethodBody) (f : InstrId → InstrId) (c : MethodBody) : Prop where
  order : c.order = b.order
  slots : c.arena.length = b.arena.length
  live : ∀ id ∈ b.order, c.get? id = (b.get? id).map (·.mapTargets f)
  dead : ∀ n, (∀ id ∈ b.order, id.slot ≠ n) → c.arena[n]? = b.arena[n]?
  handlers : c.handlers = b.handlers.map (·.mapBoundaries f)
  locals : c.locals = b.locals
  maxStack : c.maxStack = b.maxStack
  initLocals : c.initLocals = b.initLocals

/-- There is one body that is substituted by a function.  Every slot is live or dead, and a clause
speaks of each. -/
theorem SubstitutedBy.unique (hc : b.SubstitutedBy f c) (hd : b.SubstitutedBy f d) : c = d := by
  have harena : c.arena = d.arena := by
    apply List.ext_getElem?
    intro n
    by_cases hn : ∃ id ∈ b.order, id.slot = n
    · obtain ⟨id, hid, rfl⟩ := hn
      exact (hc.live id hid).trans (hd.live id hid).symm
    · push Not at hn
      exact (hc.dead n hn).trans (hd.dead n hn).symm
  obtain ⟨corder, -, -, -, chandlers, clocals, cmaxStack, cinitLocals⟩ := hc
  obtain ⟨dorder, -, -, -, dhandlers, dlocals, dmaxStack, dinitLocals⟩ := hd
  cases c
  cases d
  simp_all

/-- **Substituted bodies compose.**  The sequence stays, so that the same slots are live in
between. -/
theorem SubstitutedBy.trans (hc : b.SubstitutedBy f c) (hd : c.SubstitutedBy g d) :
    b.SubstitutedBy (g ∘ f) d where
  order := hd.order.trans hc.order
  slots := hd.slots.trans hc.slots
  live id hid := by
    rw [hd.live id (hc.order ▸ hid), hc.live id hid, Option.map_map]
    exact congrArg (Option.map · (b.get? id)) (funext fun i => i.mapTargets_mapTargets f g)
  dead n hn := (hd.dead n (hc.order ▸ hn)).trans (hc.dead n hn)
  handlers := by
    rw [hd.handlers, hc.handlers, List.map_map]
    exact List.map_congr_left fun h _ => h.mapBoundaries_mapBoundaries f g
  locals := hd.locals.trans hc.locals
  maxStack := hd.maxStack.trans hc.maxStack
  initLocals := hd.initLocals.trans hc.initLocals

/-! ### Remapped bodies -/

variable (m : Remapping)

theorem ArenaValid.remap (hb : b.ArenaValid) : (b.remap m).1.ArenaValid := hb.thin (thins_remap m b)

/-- **A remapping leaves the substituted body.**  Live slots are read off the pass place by
place. -/
theorem substitutedBy_remap (hb : b.ArenaValid) : b.SubstitutedBy m.apply (b.remap m).1 where
  order := rfl
  slots := length_arena_remap m b
  live _ hid := get?_remap m hb hid
  dead _ hn := getElem?_sweep_of_ne (remapStep m) hn b.arena 0
  handlers := rfl
  locals := rfl
  maxStack := rfl
  initLocals := rfl

/-- The count of a pass, read off the arena before it.  By induction on the sequence: no slot is met
again, so what the pass wrote does not matter. -/
theorem stateAt_remapStep (arena : List Instruction) (order : List InstrId) (count : Nat) :
    stateAt (remapStep m) arena order count order.length =
      count + m.hits ((order.filterMap fun id => arena[id.slot]?).flatMap Instruction.targets) := by
  induction order generalizing count with
  | nil => simp [stateAt_zero, Remapping.hits]
  | cons id rest ih =>
      rw [List.length_cons, stateAt, List.filterMap_cons]
      cases arena[id.slot]? with
      | none => exact ih count
      | some i =>
          dsimp only [remapStep]
          rw [ih, List.flatMap_cons, Remapping.hits, Remapping.hits, Remapping.hits,
            List.countP_append, Nat.add_assoc]

/-- **A remapping counts the references that it has a replacement for.** -/
theorem snd_remap (hb : b.ArenaValid) :
    (b.remap m).2 = b.references.countP fun id => (m.find? id).isSome := by
  have hcount : (b.sweep (remapStep m) 0).2 =
      m.hits (b.instructions.flatMap Instruction.targets) := by
    rw [sweep_snd (remapStep m) 0 hb, passState, length, stateAt_remapStep, Nat.zero_add]
    rfl
  rw [remap]
  dsimp only
  rw [hcount, references, List.countP_append]
  rfl

/-- **A remapping is a substitution, all at once.**  In a valid body each reference of a live
instruction or a handler is replaced by its image or, if it has none, kept, even where the image is
replaced itself; the references with an image are counted; and nothing else changes.  So to remap by
one mapping and then by another is to remap once by both. -/
theorem remap_substitutes (h : b.arenaFault? = none) (m m' : Remapping) :
    b.SubstitutedBy m.apply (b.remap m).1 ∧
      (b.remap m).1.references = b.references.map m.apply ∧
      (b.remap m).2 = b.references.countP (fun id => (m.find? id).isSome) ∧
      ((b.remap m).1.remap m').1 = (b.remap (m.andThen m')).1 ∧
      ∀ id, (m.andThen m').apply id = m'.apply (m.apply id) := by
  have hb : b.ArenaValid := arenaFault?_eq_none_iff.mp h
  have htwice := (substitutedBy_remap m hb).trans (substitutedBy_remap m' (hb.remap m))
  have honce := substitutedBy_remap (m.andThen m') hb
  rw [funext (Remapping.apply_andThen m m')] at honce
  exact ⟨substitutedBy_remap m hb, references_remap m hb, snd_remap m hb, htwice.unique honce,
    Remapping.apply_andThen m m'⟩

/-- A body with a branch, a table that names an instruction twice, a dead branch, and a handler with
all five boundaries. -/
def crossedBody : MethodBody where
  arena :=
    [.of (.branch .br .short) (.target ⟨1⟩), .of .switch (.switch [⟨0⟩, ⟨2⟩, ⟨0⟩]),
      .of (.branch .br .short) (.target ⟨0⟩), .ret]
  order := [⟨0⟩, ⟨1⟩, ⟨3⟩]
  locals := []
  handlers := [⟨.filterClause, ⟨0⟩, ⟨1⟩, ⟨1⟩, some ⟨3⟩, some ⟨0⟩, none⟩]
  maxStack := 0
  initLocals := false

/-- Two identities exchanged. -/
def exchange : Remapping := [(⟨0⟩, ⟨1⟩), (⟨1⟩, ⟨0⟩)]

/-- An identity replaced by a key. -/
def chain : Remapping := [(⟨0⟩, ⟨1⟩), (⟨1⟩, ⟨3⟩)]

/-- The exchange is not undone by going on through the body, and the second mapping replaces what
the first one put in. -/
theorem crossedBody_substituted :
    crossedBody.arenaFault? = none ∧
      crossedBody.SubstitutedBy exchange.apply (crossedBody.remap exchange).1 ∧
      (crossedBody.remap exchange).1.references =
        [⟨0⟩, ⟨1⟩, ⟨2⟩, ⟨1⟩, ⟨1⟩, ⟨0⟩, ⟨0⟩, ⟨3⟩, ⟨1⟩] ∧
      (crossedBody.remap exchange).2 = 7 ∧
      ((crossedBody.remap exchange).1.remap chain).1 =
        (crossedBody.remap [(⟨0⟩, ⟨3⟩), (⟨1⟩, ⟨1⟩)]).1 := by
  have hvalid : crossedBody.arenaFault? = none := by decide
  obtain ⟨hbody, hreferences, hcount, htwice, -⟩ := remap_substitutes hvalid exchange chain
  exact ⟨hvalid, hbody, hreferences.trans (by decide), hcount.trans (by decide),
    htwice.trans (by decide)⟩

/-- A sequence that names a slot twice has the replacement replaced. -/
example : ({ crossedBody with order := [⟨2⟩, ⟨2⟩] }.remap chain).1.get? ⟨2⟩ =
    some (.of (.branch .br .short) (.target ⟨3⟩)) := by
  decide

end MethodBody

end CilRepair
