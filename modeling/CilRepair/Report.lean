import CilRepair.Body.Repair
import CilRepair.Module

/-!
# Reports

What the repair of a module and a whole run did.

## Main definitions

* `ModuleRepair`: how many bodies were checked and repaired, and the counts of all repairs.
* `Module.repair`: every body repaired and laid out, with the report of each.
* `RunReport`: the stages that ran, those that failed, the repair, and where the module went.
-/

namespace CilRepair

/-- How many bodies were checked and repaired, and the counts of all repairs. -/
structure ModuleRepair where
  checked : Nat := 0
  repaired : Nat := 0
  totals : RepairReport := {}
  deriving DecidableEq

/-- The report of one body, with the names of its type and its method. -/
structure BodyRepair where
  typeName : String
  methodName : String
  report : RepairReport
  deriving DecidableEq

/-- **Every body of a module repaired,** and the report of each in order. -/
def Module.repair (m : Module) : Module × List BodyRepair :=
  m.visitBodies fun t method body =>
    let (body, report) := body.repairAndLayOut
    (body, ⟨t.fullName, method.name, report⟩)

/-- The reports of all bodies taken together. -/
def ModuleRepair.ofBodies (bodies : List BodyRepair) : ModuleRepair where
  checked := bodies.length
  repaired := bodies.countP (·.report.changed)
  totals := (bodies.map (·.report)).foldl (· + ·) {}

/-- A stage that failed, and the wording of the failure. -/
structure StageFailure where
  stage : String
  message : String
  deriving DecidableEq

/-- **What a run did.** -/
structure RunReport where
  stagesRun : List String := []
  failures : List StageFailure := []
  repair : ModuleRepair := {}
  output : Option String := none
  deriving DecidableEq

/-- The report in one line. -/
def RunReport.summary (r : RunReport) : String :=
  natText r.stagesRun.length ++ " stage(s) run, " ++ natText r.failures.length ++ " failed, "
    ++ natText r.repair.repaired ++ " of " ++ natText r.repair.checked ++ " method(s) repaired ("
    ++ r.repair.totals.text ++ ")"
    ++ (match r.output with
      | some path => ", written to " ++ path
      | none => "")

end CilRepair
