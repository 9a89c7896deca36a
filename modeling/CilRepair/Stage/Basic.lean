import CilRepair.Classifier
import CilRepair.Error
import CilRepair.Evaluator
import CilRepair.Event
import CilRepair.Names.Registry

/-!
# Stages

A stage is a named transformation of a module. A stage may fail, and the module is then whatever the
stage left.

## Main definitions

* `StageContext`: what a stage works on, the module and the names first of all.
* `StageOutcome`: the context a stage leaves, what it told, and how it failed.
* `Stage`: name, description and transformation.
-/

namespace CilRepair

variable {σ : Type}

/-- **What a stage works on.** -/
structure StageContext (σ : Type) where
  module : Module
  names : NameRegistry σ
  limits : Thresholds
  budget : Nat
  offsetShift : Int32

/-- An evaluator of a body under the limits of the run. -/
def StageContext.evaluator (c : StageContext σ) (body : MethodBody) : Evaluator :=
  ⟨body, [], c.budget, some c.offsetShift⟩

/-- **What a stage leaves.** -/
structure StageOutcome (σ : Type) where
  context : StageContext σ
  events : List Event := []
  failure : Option Error := none

/-- **A named transformation.** -/
structure Stage (σ : Type) where
  name : String
  description : String
  apply : StageContext σ → StageOutcome σ

end CilRepair
