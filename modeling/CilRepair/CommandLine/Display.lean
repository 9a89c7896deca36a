import CilRepair.Json.Printer
import CilRepair.Stage.Selection
import CilRepair.Text.Controls

/-!
# What the program shows

## Main definitions

* `Table`, `Table.lines`: columns of text.
* `stageTable`: the stages that are available.
* `RunSummary`: what is shown of a run, as text or as JSON.
* `logLine`: an event as a line of the log.
* `errorText`: an error as the program ends with it.
-/

namespace CilRepair

/-! ### Tables -/

/-- The side of a column on which its text stands. -/
inductive Side
  | left | right
  deriving DecidableEq

/-- **Columns of text under headers.** -/
structure Table where
  columns : List (String × Side)
  rows : List (List String)

namespace Table

/-- Text filled up with blanks to a width. -/
def fill (side : Side) (width : Nat) (s : String) : String :=
  let blanks := String.ofList (List.replicate (width - s.length) ' ')
  match side with
  | .left => s ++ blanks
  | .right => blanks ++ s

/-- The width of a column. -/
def width (cells : List String) : Nat := (cells.map String.length).foldl max 0

/-- Without the blanks at the end. -/
def trimRight (s : String) : String := String.ofList (trimEnd s.toList)

/-- **The lines of a table:** headers and rows, two blanks between columns. -/
def lines (t : Table) : List String :=
  let all := t.columns.map (·.1) :: t.rows
  let widths := t.columns.zipIdx.map fun (_, i) => width (all.map (·.getD i ""))
  all.map fun cells =>
    trimRight <| "  ".intercalate <|
      (t.columns.zip widths).zipIdx.map fun ((column, width), i) =>
        fill column.2 width (cells.getD i "")

end Table

/-- Lines with a line break behind each. -/
def unlines (lines : List String) : String := String.join (lines.map (· ++ "\n"))

/-- The stages that are available. -/
def stageTable {σ : Type} (stages : List (Stage σ)) : Table :=
  ⟨[("STAGE", .left), ("DESCRIPTION", .left)], stages.map fun s => [s.name, s.description]⟩

/-! ### Runs -/

/-- **What is shown of a run.** -/
structure RunSummary where
  file : String
  output : String
  report : RunReport

namespace RunSummary

/-- The kinds of repair and their counts. -/
def repairCounts (r : RepairReport) : List (String × Nat) :=
  [("branches retargeted", r.retargetedBranches),
    ("switch targets retargeted", r.retargetedSwitchTargets),
    ("branches degraded", r.degradedBranches), ("handler boundaries", r.repairedBoundaries),
    ("handlers dropped", r.droppedHandlers), ("returns appended", r.appendedReturns),
    ("locals added", r.addedLocals)]

/-- The repairs that were made. -/
def repairTable (r : RepairReport) : Table :=
  ⟨[("REPAIR", .left), ("COUNT", .right)],
    ((repairCounts r).filter (·.2 ≠ 0)).map fun (kind, count) => [kind, natText count]⟩

variable (s : RunSummary)

/-- The stages that failed. -/
def failureLines : List String :=
  if s.report.failures.isEmpty then []
  else ("  Failures:  " ++ natText s.report.failures.length)
    :: s.report.failures.map fun f => "    - " ++ f.stage ++ ": " ++ f.message

/-- **The run as text.** -/
def text : String :=
  let repair := s.report.repair
  unlines <|
    ["Done: " ++ s.file ++ " -> " ++ s.output,
      "  Stages:    " ++ ", ".intercalate s.report.stagesRun]
      ++ s.failureLines
      ++ ["  Repaired:  " ++ natText repair.repaired ++ " of " ++ natText repair.checked
        ++ " methods"]
      ++ (repairTable repair.totals).lines

/-- The counts of repairs as JSON. -/
def repairJson (r : RepairReport) : Json :=
  .fields
    [("retargeted_branches", .nat r.retargetedBranches),
      ("retargeted_switch_targets", .nat r.retargetedSwitchTargets),
      ("degraded_branches", .nat r.degradedBranches),
      ("repaired_boundaries", .nat r.repairedBoundaries),
      ("dropped_handlers", .nat r.droppedHandlers),
      ("appended_returns", .nat r.appendedReturns), ("added_locals", .nat r.addedLocals)]

/-- A failure as JSON. -/
def failureJson (f : StageFailure) : Json :=
  .fields [("stage", .text f.stage), ("message", .text f.message)]

/-- **The run as JSON.** Time is not measured and shown as zero. -/
def json : Json :=
  .fields
    [("file", .text s.file), ("output", .text s.output),
      ("stages", .array (s.report.stagesRun.map .text)),
      ("failures", .array (s.report.failures.map failureJson)),
      ("methods_checked", .nat s.report.repair.checked),
      ("methods_repaired", .nat s.report.repair.repaired),
      ("repairs", repairJson s.report.repair.totals), ("stage_time_ms", .nat 0)]

end RunSummary

/-! ### Log and errors -/

/-- Lines after the first one moved in by four blanks. -/
def indentRest (s : String) : String := "\n    ".intercalate (splitText '\n' s)

/-- **An event as a line of the log,** without control sequences. -/
def logLine (e : Event) : String :=
  shownText ("[" ++ Table.fill .left 5 e.level.text ++ "] " ++ indentRest e.message ++ "\n")

/-- The event belongs into the log. Details do only if they are asked for. -/
def isLogged (verbose : Bool) (e : Event) : Bool := verbose || e.level != .debug

/-- **An error as the program ends with it,** with its cause if it has one. -/
def errorText (context : String) (cause : Option Error) : String :=
  "Error: " ++ context
    ++ (match cause with
      | some e => "\n\nCaused by:\n    " ++ indentRest e.message
      | none => "")
    ++ "\n"

end CilRepair
