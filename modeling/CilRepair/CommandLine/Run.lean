import CilRepair.CommandLine.Arguments
import CilRepair.CommandLine.Display
import CilRepair.Names.ChaCha
import CilRepair.Pipeline.Basic

/-!
# The command line

The program as a function of its arguments and of the files it finds.

## Main definitions

* `ProgramResult`: exit code, output, log and files.
* `runArguments`: a run, or the list of stages.
* `runProgram`: everything that the arguments can ask for.
-/

namespace CilRepair

/-- **What the program leaves.** -/
structure ProgramResult where
  code : UInt8
  out : String
  err : String
  files : FileSystem

/-- The name and version that the program tells. -/
def versionText : String := "dotmend 0.1.0\n"

/-- How the program is used. -/
def usageText : String :=
  unlines
    ["Usage: dotmend [OPTIONS]", "",
      "  -t, --type TYPE            format of the module, only dotnet",
      "  -f, --file FILE            module to process",
      "  -p, --options OPTIONS      stages: names with commas in between, full, or a preset 1-4",
      "  -o, --output PATH          where the result goes, beside the input by default",
      "      --seed SEED            seed of the new names",
      "      --recompute-max-stack  compute stack sizes anew",
      "      --pretty               write an image with line breaks",
      "      --json                 report as JSON",
      "      --list-stages          list the stages that are available",
      "  -v, --verbose              log details",
      "  -h, --help                 show this text",
      "  -V, --version              show the version"]

/-- The log of some events. With a report as JSON nothing is logged. -/
def logText (a : Arguments) (events : List Event) : String :=
  if a.has .json then ""
  else String.join ((events.filter (isLogged (a.has .verbose))).map logLine)

/-- The end of a run that failed. -/
def failWith (a : Arguments) (fs : FileSystem) (events : List Event) (context : String)
    (cause : Option Error) : ProgramResult :=
  ⟨1, "", logText a events ++ errorText context cause, fs⟩

/-- The configuration of a run. -/
def configFor (a : Arguments) (entropy : UInt64) : PipelineConfig ChaCha where
  source := .ofSeed (a.seed.getD entropy)
  selection := a.selection.getD ""
  writer := { keepMaxStack := !a.has .recomputeMaxStack, pretty := a.has .pretty }

/-- The end of a run that succeeded. -/
def showRun (a : Arguments) (input output : String) (r : CallResult ChaCha)
    (events : List Event) : ProgramResult :=
  let summary : RunSummary := ⟨input, output, r.pipeline.report⟩
  let out := if a.has .json then summary.json.pretty ++ "\n" else summary.text
  ⟨0, out, logText a events, r.files⟩

/-- **A run on an input file.** Without a seed the names come from `entropy`. -/
def runFile (a : Arguments) (entropy : UInt64) (fs : FileSystem) (input : String) :
    ProgramResult :=
  let format := a.format.getD imageFormat.name
  if !fs.isFile input then failWith a fs [] ("input file not found: " ++ input) none
  else match formatForType? format with
    | none => failWith a fs [] ("unsupported module type '" ++ format ++ "'") none
    | some format =>
      match Pipeline.ofSelection (configFor a entropy) format StageRegistry.builtin with
      | (.error e, told) => failWith a fs told "no stage to run" (some e)
      | (.ok pipeline, told) =>
        let output := a.output.getD (Path.outputFor input)
        let r := pipeline.run fs input (some output)
        let events := told ++ r.events
        match r.result with
        | .error e => failWith a r.files events ("processing failed: " ++ input) (some e)
        | .ok _ => showRun a input output r events

/-- **What the arguments of a run ask for:** the list of stages, or a run on a file. -/
def runArguments (a : Arguments) (entropy : UInt64) (fs : FileSystem) : ProgramResult :=
  if a.has .listStages then
    ⟨0, unlines (stageTable (builtinStages : List (Stage ChaCha))).lines, "", fs⟩
  else match a.file with
    | none => failWith a fs [] "no input file given" none
    | some input => runFile a entropy fs input

/-- **The program.** -/
def runProgram (arguments : List String) (entropy : UInt64) (fs : FileSystem) : ProgramResult :=
  match Invocation.ofArguments arguments with
  | .run a => runArguments a entropy fs
  | .version => ⟨0, versionText, "", fs⟩
  | .help => ⟨0, usageText, "", fs⟩
  | .misuse => ⟨2, "", usageText, fs⟩

end CilRepair
