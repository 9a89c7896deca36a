import CilRepair.Report

/-!
# Events

What the library tells its user while it works. An event has a level and a wording.
-/

namespace CilRepair

/-- How much an event matters. -/
inductive Level
  | error | warn | info | debug
  deriving DecidableEq

/-- The name of a level. -/
def Level.text : Level → String
  | error => "ERROR"
  | warn => "WARN"
  | info => "INFO"
  | debug => "DEBUG"

/-- **What the library tells its user.** -/
inductive Event
  | loading (path format : String)
  | loaded (name : String) (types methods : Nat)
  | runningStage (name description : String)
  | stageFailed (name message : String)
  | stagesApplied (count : Nat)
  | handlersDropped (count : Nat) (typeName methodName : String)
  | bodyRepaired (repair : BodyRepair)
  | moduleRepaired (repaired checked : Nat)
  | wrote (size : Nat) (path : String)
  | saved (path : String)
  | finished (report : RunReport)
  | selectionMissing (fallback : String)
  | selecting (names : List String)
  | stageAdded (name : String)
  | stageSkipped (message : String)
  | stagesSelected (count : Nat)
  | folded (count : Nat)
  | nopsRemoved (count bodies : Nat)
  | typeRenamed (old new : String)
  | methodRenamed (old new : String)
  | renamed (types methods params : Nat)
  deriving DecidableEq

namespace Event

/-- How much the event matters. -/
def level : Event → Level
  | stageFailed _ _ => .error
  | handlersDropped _ _ _ | selectionMissing _ | stageSkipped _ => .warn
  | bodyRepaired _ | wrote _ _ | typeRenamed _ _ | methodRenamed _ _ => .debug
  | _ => .info

/-- The wording. -/
def message : Event → String
  | loading path format => "Loading '" ++ path ++ "' as " ++ format
  | loaded name types methods =>
    "Loaded '" ++ name ++ "' with " ++ natText types ++ " types and " ++ natText methods
      ++ " methods"
  | runningStage name description => "Running stage '" ++ name ++ "': " ++ description
  | stageFailed name message => "Stage '" ++ name ++ "' failed: " ++ message
  | stagesApplied count => "Applied " ++ natText count ++ " stage(s)"
  | handlersDropped count typeName methodName =>
    "Dropped " ++ natText count ++ " unrecoverable exception handler(s) in " ++ typeName ++ "::"
      ++ methodName
  | bodyRepaired repair =>
    "Repaired " ++ repair.typeName ++ "::" ++ repair.methodName ++ ": " ++ repair.report.text
  | moduleRepaired repaired checked =>
    "Repaired " ++ natText repaired ++ " of " ++ natText checked ++ " method(s)"
  | wrote size path => "Wrote " ++ natText size ++ " bytes to " ++ path
  | saved path => "Saved '" ++ path ++ "'"
  | finished report => report.summary
  | selectionMissing fallback =>
    "No stage selection provided, defaulting to '" ++ fallback ++ "'"
  | selecting names => "Processing stage selection '" ++ ",".intercalate names ++ "'"
  | stageAdded name => "Adding stage '" ++ name ++ "'"
  | stageSkipped message => message ++ " - skipping"
  | stagesSelected count => "Total stages configured: " ++ natText count
  | folded count => "Folded " ++ natText count ++ " constant expression(s)"
  | nopsRemoved count bodies =>
    "Removed " ++ natText count ++ " nop(s) from " ++ natText bodies ++ " method(s)"
  | typeRenamed old new => "Renamed type " ++ old ++ " -> " ++ new
  | methodRenamed old new => "Renamed method " ++ old ++ " -> " ++ new
  | renamed types methods params =>
    "Renamed " ++ natText types ++ " type(s), " ++ natText methods ++ " method(s) and "
      ++ natText params ++ " parameter(s)"

end Event

/-- The events about one body: none if nothing was repaired. -/
def BodyRepair.events (b : BodyRepair) : List Event :=
  if b.report.changed then
    (if b.report.droppedHandlers = 0 then []
      else [.handlersDropped b.report.droppedHandlers b.typeName b.methodName])
      ++ [.bodyRepaired b]
  else []

end CilRepair
