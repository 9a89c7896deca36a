import CilRepair.Body.Folding
import CilRepair.Body.References
import CilRepair.Stage.Rename

/-!
# Selecting stages

Stages are registered under names and chosen by a text: names with commas in between, or the number
of a preset. Case does not matter. Three stages are built in: renaming, folding of literals and
removal of padding.

## Main definitions

* `foldStage`: literals folded in the methods that may be changed.
* `nopStage`: padding removed from every body.
* `builtinStages`: the stages that are always available, in order.
* `StageRegistry`, `StageRegistry.register`, `StageRegistry.create`: stages by name.
* `expandPreset?`: what a preset stands for.
* `StageRegistry.expand`: the names that a text selects.
* `StageRegistry.resolve`: the stages that it selects. Names that are not registered are passed
  over, but some name has to be.
-/

namespace CilRepair

variable {σ : Type}

/-! ### Built-in stages -/

/-- A body with its literals folded if its method may be changed, and the number of folds. -/
def foldEligible (limits : Thresholds) (module : Module) (t : TypeDef) (m : MethodDef)
    (body : MethodBody) : MethodBody × Nat :=
  if limits.isEligible module t m then body.foldLiterals else (body, 0)

/-- **Folding as a stage.** -/
def foldModule (c : StageContext σ) : StageOutcome σ :=
  let (module, counts) := c.module.visitBodies (foldEligible c.limits c.module)
  { context := { c with module }, events := [.folded (counts.foldl (· + ·) 0)] }

/-- The stage that folds literals. -/
def foldStage : Stage σ := ⟨"fold", "Folds constant integer arithmetic", foldModule⟩

/-- **Removal of padding as a stage.** -/
def removePadding (c : StageContext σ) : StageOutcome σ :=
  let (module, counts) := c.module.visitBodies fun _ _ body => body.removeNops
  { context := { c with module }
    events := [.nopsRemoved (counts.foldl (· + ·) 0) (counts.countP (0 < ·))] }

/-- The stage that removes padding. -/
def nopStage : Stage σ :=
  ⟨"nops", "Removes nop padding while preserving branch and handler targets", removePadding⟩

/-- **The stages that are always available.** -/
def builtinStages [DrawSource σ] : List (Stage σ) := [renameStage, foldStage, nopStage]

/-! ### Registered stages -/

/-- **Stages by name,** in the order of registration. -/
structure StageRegistry (σ : Type) where
  entries : List (String × Stage σ)

/-- The selection that stands for a blank one. -/
def defaultSelection : String := "rename"

/-- The name that stands for every registered stage. -/
def fullSelection : String := "full"

/-- The selection of a preset. -/
def expandPreset? (text : String) : Option String :=
  match trimText text with
  | "1" => some "rename"
  | "2" => some "rename,fold"
  | "3" => some "rename,nops"
  | "4" => some fullSelection
  | _ => none

namespace StageRegistry

/-- No stage. -/
def empty : StageRegistry σ := ⟨[]⟩

/-- Entries with a stage put under a name: in the place of the stage that has the name, or at the
end. The name that is there stays as it is written. -/
def put (name : String) (stage : Stage σ) : List (String × Stage σ) → List (String × Stage σ)
  | [] => [(name, stage)]
  | entry :: rest =>
    if sameIgnoringCase entry.1 name then (entry.1, stage) :: rest else entry :: put name stage rest

variable (r : StageRegistry σ)

/-- **A stage registered under a name.** -/
def register (name : String) (stage : Stage σ) : StageRegistry σ := ⟨put name stage r.entries⟩

/-- The built-in stages under their own names. -/
def builtin [DrawSource σ] : StageRegistry σ :=
  builtinStages.foldl (fun r stage => r.register stage.name stage) empty

/-- The names in the order of their first registration. -/
def names : List String := r.entries.map (·.1)

/-- The stage under a name. -/
def find? (name : String) : Option (Stage σ) :=
  (r.entries.find? fun entry => sameIgnoringCase entry.1 name).map (·.2)

/-- The stage under a name, or the failure to find it. -/
def create (name : String) : Except Error (Stage σ) :=
  match r.find? name with
  | some stage => .ok stage
  | none => .error (.unknownStage name)

/-! ### Selections -/

/-- The names of one piece of a selection. -/
def expandPiece (piece : String) : List String :=
  let name := lowerAscii (trimText piece)
  if name.isEmpty then [] else if name == fullSelection then r.names else [name]

/-- **The names that a text selects.** -/
def expand (text : String) : List String × List Event :=
  let trimmed := trimText text
  let (selection, events) : String × List Event :=
    if trimmed.isEmpty then (defaultSelection, [.selectionMissing defaultSelection])
    else (trimmed, [])
  let pieces := splitText ',' ((expandPreset? selection).getD selection)
  (pieces.flatMap r.expandPiece, events)

/-- The stages under some names, and what is told about each. -/
def createAll : List String → List (Stage σ) × List Event
  | [] => ([], [])
  | name :: rest =>
    let (stages, events) := createAll rest
    match r.create name with
    | .ok stage => (stage :: stages, .stageAdded stage.name :: events)
    | .error e => (stages, .stageSkipped e.message :: events)

/-- **The stages that a text selects.** -/
def resolve (text : String) : Except Error (List (Stage σ)) × List Event :=
  let (names, told) := r.expand text
  let (stages, added) := r.createAll names
  let events := told ++ .selecting names :: added
  if stages.isEmpty then (.error .noStages, events)
  else (.ok stages, events ++ [.stagesSelected stages.length])

end StageRegistry

end CilRepair
