import CilRepair.Flags
import CilRepair.Instruction

/-!
# Exception handlers

A handler protects a range of instructions and names its boundaries by instruction identity.
-/

namespace CilRepair

/-- An exception handler. Its ranges include their start and exclude their end; without
`handlerEnd` the handler reaches to the end of the body. -/
structure ExceptionHandler where
  flags : HandlerFlags
  tryStart : InstrId
  tryEnd : InstrId
  handlerStart : InstrId
  handlerEnd : Option InstrId
  filterStart : Option InstrId
  catchType : Option String
  deriving DecidableEq

namespace ExceptionHandler

/-- A handler for exceptions of one type. -/
def catching (tryStart tryEnd handlerStart : InstrId) (handlerEnd : Option InstrId)
    (catchType : String) : ExceptionHandler :=
  ⟨.catchClause, tryStart, tryEnd, handlerStart, handlerEnd, none, some catchType⟩

/-- A handler that runs whenever the range is left. -/
def finalizing (tryStart tryEnd handlerStart : InstrId) (handlerEnd : Option InstrId) :
    ExceptionHandler :=
  ⟨.finallyClause, tryStart, tryEnd, handlerStart, handlerEnd, none, none⟩

/-- **The instructions that a handler names,** in the order of its fields. -/
def boundaries (h : ExceptionHandler) : List InstrId :=
  [h.tryStart, h.tryEnd, h.handlerStart] ++ h.handlerEnd.toList ++ h.filterStart.toList

@[simp] theorem tryStart_mem_boundaries (h : ExceptionHandler) : h.tryStart ∈ h.boundaries := by
  simp [boundaries]

@[simp] theorem tryEnd_mem_boundaries (h : ExceptionHandler) : h.tryEnd ∈ h.boundaries := by
  simp [boundaries]

@[simp] theorem handlerStart_mem_boundaries (h : ExceptionHandler) :
    h.handlerStart ∈ h.boundaries := by
  simp [boundaries]

theorem mem_boundaries_of_handlerEnd {h : ExceptionHandler} {id : InstrId}
    (hid : h.handlerEnd = some id) : id ∈ h.boundaries := by
  simp [boundaries, hid]

theorem mem_boundaries_of_filterStart {h : ExceptionHandler} {id : InstrId}
    (hid : h.filterStart = some id) : id ∈ h.boundaries := by
  simp [boundaries, hid]

/-- The handler with every boundary replaced. -/
def mapBoundaries (f : InstrId → InstrId) (h : ExceptionHandler) : ExceptionHandler :=
  { h with
    tryStart := f h.tryStart
    tryEnd := f h.tryEnd
    handlerStart := f h.handlerStart
    handlerEnd := h.handlerEnd.map f
    filterStart := h.filterStart.map f }

@[simp] theorem boundaries_mapBoundaries (f : InstrId → InstrId) (h : ExceptionHandler) :
    (h.mapBoundaries f).boundaries = h.boundaries.map f := by
  cases he : h.handlerEnd <;> cases hf : h.filterStart <;> simp [mapBoundaries, boundaries, he, hf]

/-- The number of values on the stack when the handler is entered: the exception, or nothing. -/
def entryDepth (h : ExceptionHandler) : Nat := if h.flags.entersEmpty then 0 else 1

end ExceptionHandler

end CilRepair
