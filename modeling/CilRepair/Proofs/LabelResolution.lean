import CilRepair.Assembler
import CilRepair.Proofs.Positions

/-!
# Resolving labels

Finishing a body looks its labels up one by one, in three lists, and stops at the first label that
was never given.  The look-ups do not depend on each other.  So the whole of it is a search for the
first missing label, and behind it a body that is made without any failure.

* `Assembler.needing` — a value that needs labels: the error of the first missing one, or the value.
* `needing_bind`, `mapM_eq_needing` — what needs labels in sequence needs the labels of all parts.
* `MethodBody.fill` — operands written into slots.
* `Assembler.finish_eq` — the finished body in these terms.

## Design notes

The code looks labels up while it changes the body, and leaves at the first that is missing.
Nothing that it looks up depends on what it has changed, so both can be separated: `needing` is the
error of the first missing label, or a value that is computed as if no label were missing.

A label without a place stands for `unresolved` in that value.  It never shows, for then there is an
error instead; but it makes the value total, so that every lemma here is an equation without a
hypothesis.
-/

namespace CilRepair

/-! ### Handlers -/

namespace HandlerSpec

/-- The labels that a handler needs, in the order of its fields. -/
def labels (h : HandlerSpec) : List String :=
  [h.tryStart, h.tryEnd, h.handlerStart] ++ h.handlerEnd.toList ++ h.filterStart.toList

/-- The handler whose boundaries are what its labels stand for. -/
def resolved (target : String → InstrId) (h : HandlerSpec) : ExceptionHandler :=
  ⟨h.flags, target h.tryStart, target h.tryEnd, target h.handlerStart, h.handlerEnd.map target,
    h.filterStart.map target, h.catchType⟩

/-- The boundaries of a handler come from its labels, in their order. -/
@[simp] theorem boundaries_resolved (target : String → InstrId) (h : HandlerSpec) :
    (h.resolved target).boundaries = h.labels.map target := by
  cases hend : h.handlerEnd <;> cases hfilter : h.filterStart <;>
    simp [resolved, labels, ExceptionHandler.boundaries, hend, hfilter]

end HandlerSpec

/-! ### Operands -/

namespace MethodBody

variable (b : MethodBody) (operands : List (InstrId × Operand))

/-- **Operands written into slots,** in their order. -/
def fill : MethodBody :=
  operands.foldl (fun b (id, operand) => b.modify id (Assembler.withOperand operand)) b

theorem fill_append (more : List (InstrId × Operand)) :
    b.fill (operands ++ more) = (b.fill operands).fill more := List.foldl_append

@[simp] theorem order_fill : (b.fill operands).order = b.order := by
  induction operands generalizing b with
  | nil => rfl
  | cons entry rest ih => exact ih _

@[simp] theorem locals_fill : (b.fill operands).locals = b.locals := by
  induction operands generalizing b with
  | nil => rfl
  | cons entry rest ih => exact ih _

@[simp] theorem handlers_fill : (b.fill operands).handlers = b.handlers := by
  induction operands generalizing b with
  | nil => rfl
  | cons entry rest ih => exact ih _

end MethodBody

namespace Assembler

variable (a : Assembler) {α β : Type}

/-! ### Labels -/

/-- **The instruction that a label stands for,** and for a label that was not given none at all. -/
def target (label : String) : InstrId := (a.labels.lookup label).getD unresolved

/-- **A value that needs labels.**  The first that was not given is an error. -/
def needing (labels : List String) (value : α) : Except Error α :=
  match labels.find? fun label => (a.labels.lookup label).isNone with
  | some label => .error (.undefinedLabel label)
  | none => .ok value

variable {a}

/-- What needs labels in sequence needs them all.  The first one that is missing is the first in the
joined list. -/
theorem needing_bind {first second : List String} {value : α} {result : β} {f : α → Except Error β}
    (h : f value = a.needing second result) :
    (a.needing first value >>= f) = a.needing (first ++ second) result := by
  rw [needing, needing, List.find?_append]
  cases first.find? fun label => (a.labels.lookup label).isNone with
  | none => exact h
  | some label => rfl

/-- A step that cannot fail needs no labels of its own. -/
theorem needing_bind_ok {labels : List String} {value : α} {result : β} {f : α → Except Error β}
    (h : f value = .ok result) : (a.needing labels value >>= f) = a.needing labels result := by
  have hall : (a.needing labels value >>= f) = a.needing (labels ++ []) result := needing_bind h
  rwa [List.append_nil] at hall

/-- A label needs itself, -/
theorem resolve_eq (label : String) : a.resolve label = a.needing [label] (a.target label) := by
  rw [resolve, needing, target, List.find?_singleton]
  cases a.labels.lookup label <;> rfl

/-- and one that may be absent needs itself if it is there. -/
theorem resolveOptional_eq (label? : Option String) :
    a.resolveOptional label? = a.needing label?.toList (label?.map a.target) := by
  cases label? with
  | none => rfl
  | some label =>
      rw [resolveOptional, resolve_eq]
      exact needing_bind_ok rfl

/-- A list whose items need labels needs the labels of all of them.  By induction on the list. -/
theorem mapM_eq_needing {g : α → Except Error β} {labels : α → List String} {f : α → β}
    (h : ∀ x, g x = a.needing (labels x) (f x)) (items : List α) :
    items.mapM g = a.needing (items.flatMap labels) (items.map f) := by
  induction items with
  | nil => rfl
  | cons x rest ih =>
      rw [List.mapM_cons, h, List.flatMap_cons, List.map_cons]
      refine needing_bind ?_
      rw [ih]
      exact needing_bind_ok rfl

/-- The entries of a table. -/
theorem mapM_resolve (labels : List String) :
    labels.mapM a.resolve = a.needing labels (labels.map a.target) := by
  rw [mapM_eq_needing resolve_eq, List.flatMap_singleton']

/-- A handler needs its labels, in the order of its fields. -/
theorem resolveHandler_eq (h : HandlerSpec) :
    a.resolveHandler h = a.needing h.labels (h.resolved a.target) := by
  have hlabels : h.labels = [h.tryStart] ++ ([h.tryEnd] ++ ([h.handlerStart] ++
      (h.handlerEnd.toList ++ h.filterStart.toList))) := by
    simp [HandlerSpec.labels]
  simp only [resolveHandler, resolve_eq, resolveOptional_eq, hlabels]
  exact needing_bind (needing_bind (needing_bind (needing_bind (needing_bind_ok rfl))))

/-! ### Fixups -/

/-- The operands that branches wait for. -/
def branchOperands (a : Assembler) : List (InstrId × Operand) :=
  a.branches.map (Prod.map id fun label => .target (a.target label))

/-- The operands that switches wait for. -/
def switchOperands (a : Assembler) : List (InstrId × Operand) :=
  a.switches.map (Prod.map id fun labels => .switch (labels.map a.target))

/-- Branches need one label each, and their operands are written as they come. -/
theorem resolveBranches_eq (body : MethodBody) (branches : List (InstrId × String)) :
    a.resolveBranches body branches =
      a.needing (branches.map Prod.snd)
        (body.fill (branches.map (Prod.map id fun label => .target (a.target label)))) := by
  induction branches generalizing body with
  | nil => rfl
  | cons entry rest ih =>
      rw [resolveBranches, resolve_eq]
      exact needing_bind (ih _)

/-- Tables need all of their labels. -/
theorem resolveSwitches_eq (body : MethodBody) (switches : List (InstrId × List String)) :
    a.resolveSwitches body switches =
      a.needing (switches.flatMap Prod.snd)
        (body.fill (switches.map (Prod.map id fun labels => .switch (labels.map a.target)))) := by
  induction switches generalizing body with
  | nil => rfl
  | cons entry rest ih =>
      rw [resolveSwitches, mapM_resolve]
      exact needing_bind (ih _)

/-- **The labels that are looked up,** in their order: branches, switches, handlers. -/
def neededLabels (a : Assembler) : List String :=
  a.branches.map Prod.snd ++ (a.switches.flatMap Prod.snd ++ a.handlers.flatMap HandlerSpec.labels)

/-- **The body with every label resolved.** -/
def resolvedBody (a : Assembler) : MethodBody :=
  { a.body.fill (a.branchOperands ++ a.switchOperands) with
    handlers := a.body.handlers ++ a.handlers.map (HandlerSpec.resolved a.target) }

/-- **What finishing returns:** the first waiting label as an error, else the first label that was
not given, else the resolved body with its offsets. -/
theorem finish_eq (a : Assembler) :
    a.finish = match a.pending.head? with
      | some label => .error (.malformed (.danglingLabel label))
      | none => a.needing a.neededLabels a.resolvedBody.updateOffsets := by
  rw [finish]
  cases a.pending with
  | cons label rest => rfl
  | nil =>
      simp only [resolveBranches_eq, resolveSwitches_eq, mapM_eq_needing resolveHandler_eq]
      refine needing_bind (needing_bind (needing_bind_ok ?_))
      rw [resolvedBody, MethodBody.fill_append, MethodBody.handlers_fill, MethodBody.handlers_fill]
      rfl

end Assembler

end CilRepair
