import CilRepair.Proofs.Positions

/-!
# Control flow between places

Where control can go from a place, read off the instruction that is there and not off a run.  An
instruction leads to the live instructions that its operand names, and, if it lets control fall
through, to the next place.  Which instructions do is a parameter, because two parts of this library
answer that question differently: `FlowKind.isTerminal` for the structure of a body, and the
evaluator, which runs on behind most of them.

* `MethodBody.Leads` — one step of control, for a given notion of falling through.
* `MethodBody.FlowsTo` — the structural notion: terminal instructions do not fall through.
* `MethodBody.IsEntry`, `MethodBody.Reached` — the places that control gets to from the start of a
  body and from its handlers.
* `MethodBody.Reached.induct` — how something is proved of all these places.

## Design notes

Places outside the body are never led to, so that the relations do not have to be cut down to it.

A step is decidable, by the lemma for a known instruction, and `Reached` is a closure under steps.
Concrete bodies can therefore be checked edge by edge, while a search that fills a table is compared
with the closure and not with another search.
-/

namespace CilRepair

namespace MethodBody

variable {b : MethodBody} {p q : Nat} {i : Instruction} {falls : Instruction → Bool}

/-- **One step of control:** to a live target of the operand, or to the next place if the
instruction falls through. -/
def Leads (b : MethodBody) (falls : Instruction → Bool) (p q : Nat) : Prop :=
  ∃ i, b.at? p = some i ∧ q < b.length ∧
    ((∃ id ∈ i.targets, b.idAt? q = some id) ∨ falls i = true ∧ q = p + 1)

theorem Leads.lt (h : b.Leads falls p q) : q < b.length := by
  obtain ⟨i, -, hq, -⟩ := h
  exact hq

/-- The step of control, where the instruction is known. -/
theorem leads_iff (hi : b.at? p = some i) :
    b.Leads falls p q ↔ q < b.length ∧
      ((∃ id ∈ i.targets, b.idAt? q = some id) ∨ falls i = true ∧ q = p + 1) := by
  simp [Leads, hi]

instance (b : MethodBody) (falls : Instruction → Bool) (p q : Nat) :
    Decidable (b.Leads falls p q) :=
  match hi : b.at? p with
  | none => isFalse (by rintro ⟨i, hi', -⟩; simp [hi] at hi')
  | some _ => decidable_of_iff _ (leads_iff hi).symm

/-- **One step of control in the structure of a body:** a terminal instruction does not fall
through. -/
def FlowsTo (b : MethodBody) : Nat → Nat → Prop := b.Leads fun i => !i.isTerminal

instance (b : MethodBody) (p q : Nat) : Decidable (b.FlowsTo p q) :=
  inferInstanceAs (Decidable (b.Leads _ p q))

/-- A place where control enters: the first one, the start of a handler, or that of a filter. -/
def IsEntry (b : MethodBody) (p : Nat) : Prop :=
  p = 0 ∧ b.order ≠ [] ∨
    ∃ h ∈ b.handlers, b.idAt? p = some h.handlerStart ∨
      ∃ id ∈ h.filterStart, b.idAt? p = some id

/-- **A place that control gets to** from an entry. -/
def Reached (b : MethodBody) (p : Nat) : Prop :=
  ∃ entry, b.IsEntry entry ∧ Relation.ReflTransGen b.FlowsTo entry p

/-- Entries are places of the body: an empty one has none. -/
theorem IsEntry.lt (h : b.IsEntry p) : p < b.length := by
  rcases h with ⟨rfl, hne⟩ | ⟨h, -, hid | ⟨id, -, hid⟩⟩
  · exact List.length_pos_of_ne_nil hne
  · exact idAt?_lt hid
  · exact idAt?_lt hid

theorem IsEntry.reached (h : b.IsEntry p) : b.Reached p := ⟨p, h, .refl⟩

theorem Reached.step (h : b.Reached p) (hstep : b.FlowsTo p q) : b.Reached q := by
  obtain ⟨entry, hentry, hpath⟩ := h
  exact ⟨entry, hentry, hpath.tail hstep⟩

/-- All of these are places of the body. -/
theorem Reached.lt (h : b.Reached p) : p < b.length := by
  obtain ⟨entry, hentry, hpath⟩ := h
  cases hpath with
  | refl => exact hentry.lt
  | tail _ hstep => exact hstep.lt

/-- **A property of entries that every step of control keeps** holds wherever control gets to. -/
theorem Reached.induct {motive : Nat → Prop} (hentry : ∀ p, b.IsEntry p → motive p)
    (hstep : ∀ p q, b.Reached p → motive p → b.FlowsTo p q → motive q) (h : b.Reached p) :
    motive p := by
  obtain ⟨entry, hstart, hpath⟩ := h
  induction hpath with
  | refl => exact hentry entry hstart
  | tail hprefix hlast ih => exact hstep _ _ ⟨entry, hstart, hprefix⟩ ih hlast

end MethodBody

end CilRepair
