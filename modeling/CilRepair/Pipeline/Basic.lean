import CilRepair.Format
import CilRepair.Stage.Selection

/-!
# The pipeline

A module on its way from input to output: it is loaded, the stages are applied, every body is
repaired, and the result is saved. A stage that fails does not stop the others; a load or a save
that fails ends the way.

## Main definitions

* `PipelineConfig`: what a run depends on.
* `Phase`: the station a module has reached, with the context it has there.
* `Pipeline`: configuration, format, stages, phase and report.
* `CallResult`: what a call leaves; `CallResult.andThen`: one call after another.
* `Pipeline.load`, `install`, `applyStages`, `repair`, `save`, `run`: the calls. A call that comes
  at the wrong station changes nothing.
-/

namespace CilRepair

variable {σ : Type}

/-- **What a run depends on.** -/
structure PipelineConfig (σ : Type) where
  source : σ
  selection : String := ""
  writer : WriterOptions := {}
  nameLength : Nat := NameRegistry.defaultLength
  nameAttempts : Nat := NameRegistry.defaultAttempts
  budget : Nat := Evaluator.defaultBudget
  offsetShift : Int32 := Evaluator.defaultOffsetShift
  limits : Thresholds := {}

/-- The context in which the stages meet a module. -/
def PipelineConfig.context (config : PipelineConfig σ) (module : Module) : StageContext σ :=
  ⟨module, .new config.source config.nameLength config.nameAttempts, config.limits, config.budget,
    config.offsetShift⟩

/-- **The station a module has reached.** -/
inductive Phase (σ : Type)
  | unloaded
  | loaded (context : StageContext σ)
  | stagesApplied (context : StageContext σ)
  | repaired (context : StageContext σ)
  | saved (context : StageContext σ)
  | failed (context : Option (StageContext σ))

namespace Phase

/-- The name of the station. -/
def state : Phase σ → PipelineState
  | unloaded => .unloaded
  | loaded _ => .loaded
  | stagesApplied _ => .stagesApplied
  | repaired _ => .repaired
  | saved _ => .saved
  | failed _ => .failed

/-- The context, once a module is loaded. -/
def context? : Phase σ → Option (StageContext σ)
  | unloaded => none
  | loaded c | stagesApplied c | repaired c | saved c => some c
  | failed c => c

end Phase

/-- **A module on its way from input to output.** -/
structure Pipeline (σ : Type) where
  config : PipelineConfig σ
  format : ModuleFormat
  stages : List (Stage σ)
  phase : Phase σ
  report : RunReport

/-- **What a call leaves:** the pipeline, the files, what was told, and the result. -/
structure CallResult (σ : Type) where
  pipeline : Pipeline σ
  files : FileSystem
  events : List Event
  result : Except Error Unit

/-- A call made after another one, unless that failed. -/
def CallResult.andThen (r : CallResult σ) (call : Pipeline σ → FileSystem → CallResult σ) :
    CallResult σ :=
  match r.result with
  | .error _ => r
  | .ok _ =>
    let next := call r.pipeline r.files
    { next with events := r.events ++ next.events }

/-! ### Applying stages -/

/-- What the stages leave: the context, which of them ran, which failed, and what was told. -/
structure StagesOutcome (σ : Type) where
  context : StageContext σ
  stagesRun : List String
  failures : List StageFailure
  events : List Event

/-- **Stages applied one after the other,** each to what the one before it left. -/
def runStages : List (Stage σ) → StageContext σ → StagesOutcome σ
  | [], c => ⟨c, [], [], []⟩
  | stage :: rest, c =>
    let outcome := stage.apply c
    let later := runStages rest outcome.context
    let told := .runningStage stage.name stage.description :: outcome.events
    match outcome.failure with
    | none =>
      { later with
        stagesRun := stage.name :: later.stagesRun
        events := told ++ later.events }
    | some e =>
      { later with
        failures := ⟨stage.name, e.message⟩ :: later.failures
        events := told ++ .stageFailed stage.name e.message :: later.events }

namespace Pipeline

/-- A pipeline without a module. -/
def new (config : PipelineConfig σ) (format : ModuleFormat) (stages : List (Stage σ)) :
    Pipeline σ :=
  ⟨config, format, stages, .unloaded, {}⟩

/-- **A pipeline with the stages that its configuration selects.** -/
def ofSelection (config : PipelineConfig σ) (format : ModuleFormat) (registry : StageRegistry σ) :
    Except Error (Pipeline σ) × List Event :=
  let (stages, events) := registry.resolve config.selection
  (stages.map (new config format), events)

variable (p : Pipeline σ) (fs : FileSystem)

/-- The station. -/
def state : PipelineState := p.phase.state

/-- The module, once it is loaded. -/
def module? : Option Module := p.phase.context?.map (·.module)

/-- The call comes at the wrong station. -/
def refuse (expected : PipelineState) : CallResult σ :=
  ⟨p, fs, [], .error (.invalidState expected p.state)⟩

/-- An error that ends the way: any error that would not is wrapped. -/
def fatal (wrap : String → Error) (e : Error) : Error := if e.isFatal then e else wrap e.message

/-- A pipeline that a module has been put into. -/
def withModule (module : Module) : Pipeline σ :=
  { p with phase := .loaded (p.config.context module), report := {} }

/-! ### Calls -/

/-- **A module loaded from a file.** -/
def load (path : String) : CallResult σ :=
  match p.phase with
  | .unloaded =>
    let (result, events) := p.format.load fs path
    let events := .loading path p.format.name :: events
    match result with
    | .ok module => ⟨p.withModule module, fs, events, .ok ()⟩
    | .error e => ⟨{ p with phase := .failed none }, fs, events, .error (fatal (.load path) e)⟩
  | _ => p.refuse fs .unloaded

/-- A module put in. -/
def install (module : Module) : CallResult σ :=
  match p.phase with
  | .unloaded => ⟨p.withModule module, fs, [], .ok ()⟩
  | _ => p.refuse fs .unloaded

/-- **The stages applied in order.** -/
def applyStages : CallResult σ :=
  match p.phase with
  | .loaded c =>
    let outcome := runStages p.stages c
    let report :=
      { p.report with stagesRun := outcome.stagesRun, failures := outcome.failures }
    ⟨{ p with phase := .stagesApplied outcome.context, report }, fs,
      outcome.events ++ [.stagesApplied outcome.stagesRun.length], .ok ()⟩
  | _ => p.refuse fs .loaded

/-- **Every body repaired.** -/
def repair : CallResult σ :=
  match p.phase with
  | .stagesApplied c =>
    let (module, bodies) := c.module.repair
    let repair := ModuleRepair.ofBodies bodies
    ⟨{ p with phase := .repaired { c with module }, report := { p.report with repair } }, fs,
      bodies.flatMap (·.events) ++ [.moduleRepaired repair.repaired repair.checked], .ok ()⟩
  | _ => p.refuse fs .stagesApplied

/-- **The module saved to a file.** -/
def save (path : String) : CallResult σ :=
  match p.phase with
  | .repaired c =>
    let outcome := p.format.save fs p.config.writer c.module path
    match outcome.result with
    | .ok _ =>
      ⟨{ p with phase := .saved c, report := { p.report with output := some path } },
        outcome.files, outcome.events ++ [.saved path], .ok ()⟩
    | .error e =>
      ⟨{ p with phase := .failed (some c) }, outcome.files, outcome.events,
        .error (fatal (.save path) e)⟩
  | _ => p.refuse fs .repaired

/-- The report told at the end of a run. -/
def finish : CallResult σ := ⟨p, fs, [.finished p.report], .ok ()⟩

/-- **The whole way,** to a place beside the input if no other is given. -/
def run (input : String) (output : Option String) : CallResult σ :=
  ((((p.load fs input).andThen applyStages).andThen repair).andThen
    fun p fs => p.save fs (output.getD (Path.outputFor input))).andThen finish

end Pipeline

end CilRepair
