import CilRepair.Proofs.PipelineInvariants
import CilRepair.Proofs.StageContexts
import Mathlib.Logic.Relation

/-!
# The way of a pipeline

Calls come in any order, and each belongs at one station.  There it either leads to its goal or,
if the format cannot load or save, to the end; everywhere else it is refused and changes nothing.
What a pipeline reports is therefore settled by its station and by the module that came in.

* `PipelineState.Moves` — the ways from one station to another.
* `PipelineCall.station`, `PipelineCall.goal` — where a call belongs and where it leads.
* `PipelineCall.FormatFails`, `PipelineCall.Brings` — what a call meets outside the pipeline.
* `Pipeline.run_of_ok`, `Pipeline.run_of_error` — a run, which stops at the first call that fails.
* `Pipeline.Obeys` — one call, by its station; `Pipeline.obeys` for all of them.
* `Pipeline.Recorded` — what is held and reported at each station; `Recorded.perform` for one call.
* `Pipeline.calls_follow_lifecycle` — all of it after any calls.

The stages and the format may do what they like, and the files may be others at each call.

## Design notes

The refusals are one lemma, `perform_of_ne`, and what a call does in its place is one pair of
equations for each of the elementary calls, by whether the format answers.  Everything that is said
about a call afterwards, and about calls in any order, goes by these and opens no call again.

A run is four calls in a row that stops at the first that fails.  Only the first and the last can,
so a run that could load is the save of the pipeline that `prepare` describes, and needs no
induction.

What is held at a station is stated by the phase and not by the history: `Recorded` is an invariant
of one call, and the history comes in only through the modules that some call brought in.
-/

namespace CilRepair

variable {σ : Type}

/-- **A move:** from a station to the next one, or from a failed load or save to the end. -/
inductive PipelineState.Moves : PipelineState → PipelineState → Prop
  | load : Moves .unloaded .loaded
  | applyStages : Moves .loaded .stagesApplied
  | repair : Moves .stagesApplied .repaired
  | save : Moves .repaired .saved
  | loadFails : Moves .unloaded .failed
  | saveFails : Moves .repaired .failed

namespace PipelineCall

/-- The station at which a call belongs. -/
def station : PipelineCall → PipelineState
  | load _ | install _ | run _ _ => .unloaded
  | applyStages => .loaded
  | repair => .stagesApplied
  | save _ => .repaired

/-- The station to which a call leads. -/
def goal : PipelineCall → PipelineState
  | load _ | install _ => .loaded
  | applyStages => .stagesApplied
  | repair => .repaired
  | save _ | run _ _ => .saved

/-- **The format fails** when it has to load or save for a call. -/
def FormatFails (p : Pipeline σ) (fs : FileSystem) : PipelineCall → Prop
  | load path => ∃ e, (p.format.load fs path).1 = .error e
  | save path =>
    ∃ m e, p.module? = some m ∧ (p.format.save fs p.config.writer m path).result = .error e
  | run input output =>
    (∃ e, (p.format.load fs input).1 = .error e) ∨
      ∃ m e, (p.format.load fs input).1 = .ok m ∧
        (p.format.save fs p.config.writer (Pipeline.staged p.config p.stages m).repair.1
          (output.getD (Path.outputFor input))).result = .error e
  | install _ | applyStages | repair => False

/-- A call brings a module into a pipeline. -/
def Brings (format : ModuleFormat) (fs : FileSystem) (found : Module) : PipelineCall → Prop
  | load path | run path _ => (format.load fs path).1 = .ok found
  | install m => m = found
  | applyStages | repair | save _ => False

/-- No call belongs where a pipeline ends, so all of them are refused there. -/
theorem station_ne_of_end (call : PipelineCall) {state : PipelineState}
    (h : state = .saved ∨ state = .failed) : state ≠ call.station := by
  rcases h with rfl | rfl <;> cases call <;> simp [station]

end PipelineCall

namespace Pipeline

open Relation (ReflTransGen)
open PipelineState (Moves)

/-! ### What becomes of a module -/

/-- A report after the stages. -/
def reportOfStages (report : RunReport) (stages : List (Stage σ)) (c : StageContext σ) :
    RunReport :=
  { report with
    stagesRun := (runStages stages c).stagesRun
    failures := (runStages stages c).failures }

/-- The context of a module that has been staged and repaired. -/
def preparedContext (config : PipelineConfig σ) (stages : List (Stage σ)) (m : Module) :
    StageContext σ :=
  let c := (runStages stages (config.context m)).context
  { c with module := c.module.repair.1 }

/-- The report on a module that has been staged and repaired. -/
def preparedReport (config : PipelineConfig σ) (stages : List (Stage σ)) (m : Module) :
    RunReport :=
  { reportOfStages {} stages (config.context m) with
    repair := ModuleRepair.ofBodies (staged config stages m).repair.2 }

/-! ### One call -/

/-- **What a call does,** depending on the station at which it comes. -/
structure Obeys (p : Pipeline σ) (call : PipelineCall) (fs : FileSystem) : Prop where
  moves : ReflTransGen Moves p.state (call.perform p fs).pipeline.state
  refused : p.state ≠ call.station →
    (call.perform p fs).result = .error (.invalidState call.station p.state) ∧
      (call.perform p fs).pipeline = p
  closed : p.state = .saved ∨ p.state = .failed →
    (call.perform p fs).result = .error (.invalidState call.station p.state) ∧
      (call.perform p fs).pipeline = p
  succeeds : p.state = call.station → ¬ call.FormatFails p fs →
    (call.perform p fs).result = .ok () ∧ (call.perform p fs).pipeline.state = call.goal
  fails : p.state = call.station → call.FormatFails p fs →
    ∃ e, (call.perform p fs).result = .error e ∧ e.isFatal = true ∧
      (call.perform p fs).pipeline.state = .failed
  fatal : ∀ e, (call.perform p fs).result = .error e →
    e = .invalidState call.station p.state ∨ e.isFatal = true

section Calls

variable (p : Pipeline σ) (fs : FileSystem)

/-- An error that is wrapped is fatal if the wrapping makes it so, and one that was fatal stays
so. -/
theorem isFatal_fatal {wrap : String → Error} (h : ∀ message, (wrap message).isFatal = true)
    (e : Error) : (fatal wrap e).isFatal = true := by
  unfold fatal
  split
  · assumption
  · exact h e.message

/-- **A call at the wrong station is refused.**  It says where it belongs and where the pipeline is,
and nothing else happens. -/
theorem perform_of_ne {call : PipelineCall} (h : p.state ≠ call.station) :
    call.perform p fs = p.refuse fs call.station := by
  have hload : ∀ path, p.state ≠ .unloaded → p.load fs path = p.refuse fs .unloaded := by
    intro path h
    rw [load]
    split
    · next hphase => exact absurd (congrArg Phase.state hphase) h
    · rfl
  cases call with
  | load path => exact hload path h
  | install m =>
      rw [PipelineCall.perform, install]
      split
      · next hphase => exact absurd (congrArg Phase.state hphase) h
      · rfl
  | applyStages =>
      rw [PipelineCall.perform, applyStages]
      split
      · next hphase => exact absurd (congrArg Phase.state hphase) h
      · rfl
  | repair =>
      rw [PipelineCall.perform, repair]
      split
      · next hphase => exact absurd (congrArg Phase.state hphase) h
      · rfl
  | save path =>
      rw [PipelineCall.perform, save]
      split
      · next hphase => exact absurd (congrArg Phase.state hphase) h
      · rfl
  | run input output =>
      rw [PipelineCall.perform, run, hload input h]
      rfl

/-! The five elementary calls where they belong, by what the format answers. -/

variable {p}

/-- A station determines the phase up to what the phase holds; before loading it holds nothing. -/
theorem phase_eq_of_unloaded (h : p.state = .unloaded) : p.phase = .unloaded := by
  rw [state] at h
  cases hphase : p.phase <;> simp [hphase, Phase.state] at h
  rfl

theorem exists_phase_of_loaded (h : p.state = .loaded) : ∃ c, p.phase = .loaded c := by
  rw [state] at h
  cases hphase : p.phase <;> simp [hphase, Phase.state] at h
  exact ⟨_, rfl⟩

theorem exists_phase_of_stagesApplied (h : p.state = .stagesApplied) :
    ∃ c, p.phase = .stagesApplied c := by
  rw [state] at h
  cases hphase : p.phase <;> simp [hphase, Phase.state] at h
  exact ⟨_, rfl⟩

theorem exists_phase_of_repaired (h : p.state = .repaired) : ∃ c, p.phase = .repaired c := by
  rw [state] at h
  cases hphase : p.phase <;> simp [hphase, Phase.state] at h
  exact ⟨_, rfl⟩

/-- **A call comes through:** it leaves this pipeline, touches no file and does not fail. -/
structure ComesThrough (r : CallResult σ) (fs : FileSystem) (p : Pipeline σ) : Prop where
  pipeline : r.pipeline = p
  files : r.files = fs
  result : r.result = .ok ()

/-- A load brings the module in, and touches no file. -/
theorem load_of_ok (h : p.phase = .unloaded) {path : String} {m : Module}
    (hload : (p.format.load fs path).1 = .ok m) :
    ComesThrough (p.load fs path) fs (p.withModule m) := by
  rw [load, h]
  dsimp only
  rw [hload]
  exact ⟨rfl, rfl, rfl⟩

/-- A load that fails leaves the pipeline failed, without a module. -/
theorem load_of_error (h : p.phase = .unloaded) {path : String} {e : Error}
    (hload : (p.format.load fs path).1 = .error e) :
    (p.load fs path).pipeline = { p with phase := .failed none } ∧
      (p.load fs path).result = .error (fatal (.load path) e) := by
  rw [load, h]
  dsimp only
  rw [hload]
  exact ⟨rfl, rfl⟩

theorem install_of_unloaded (h : p.phase = .unloaded) (m : Module) :
    p.install fs m = ⟨p.withModule m, fs, [], .ok ()⟩ := by
  rw [install, h]

/-- The stages run on the context that is held, and always to an end: a stage that fails is reported
and does not stop the others. -/
theorem applyStages_of_loaded {c : StageContext σ} (h : p.phase = .loaded c) :
    ComesThrough (p.applyStages fs) fs
      { p with
        phase := .stagesApplied (runStages p.stages c).context
        report := reportOfStages p.report p.stages c } := by
  rw [applyStages, h]
  exact ⟨rfl, rfl, rfl⟩

/-- A repair changes the module of the context and the report, and cannot fail. -/
theorem repair_of_stagesApplied {c : StageContext σ} (h : p.phase = .stagesApplied c) :
    ComesThrough (p.repair fs) fs
      { p with
        phase := .repaired { c with module := c.module.repair.1 }
        report := { p.report with repair := ModuleRepair.ofBodies c.module.repair.2 } } := by
  rw [repair, h]
  exact ⟨rfl, rfl, rfl⟩

/-- A save reports its target. -/
theorem save_of_ok {c : StageContext σ} (h : p.phase = .repaired c) {path : String}
    (hsave : (p.format.save fs p.config.writer c.module path).result = .ok ()) :
    (p.save fs path).pipeline =
        { p with phase := .saved c, report := { p.report with output := some path } } ∧
      (p.save fs path).result = .ok () := by
  rw [save, h]
  dsimp only
  rw [hsave]
  exact ⟨rfl, rfl⟩

/-- A save that fails keeps the context, so that the module can still be looked at. -/
theorem save_of_error {c : StageContext σ} (h : p.phase = .repaired c) {path : String} {e : Error}
    (hsave : (p.format.save fs p.config.writer c.module path).result = .error e) :
    (p.save fs path).pipeline = { p with phase := .failed (some c) } ∧
      (p.save fs path).result = .error (fatal (.save path) e) := by
  rw [save, h]
  dsimp only
  rw [hsave]
  exact ⟨rfl, rfl⟩

/-! A run, which stops at the first of its four calls that fails. -/

/-- A call that failed is the end of a sequence. -/
theorem andThen_of_error {r : CallResult σ} {e : Error} (h : r.result = .error e)
    (call : Pipeline σ → FileSystem → CallResult σ) : r.andThen call = r := by
  rw [CallResult.andThen, h]

/-- A call that succeeded hands its pipeline and its files on. -/
theorem andThen_of_ok {r : CallResult σ} (h : r.result = .ok ())
    (call : Pipeline σ → FileSystem → CallResult σ) :
    (r.andThen call).pipeline = (call r.pipeline r.files).pipeline ∧
      (r.andThen call).files = (call r.pipeline r.files).files ∧
      (r.andThen call).result = (call r.pipeline r.files).result := by
  rw [CallResult.andThen, h]
  exact ⟨rfl, rfl, rfl⟩

/-- Calls that come through one after the other come through together. -/
theorem ComesThrough.andThen {r : CallResult σ} {q : Pipeline σ} (h : ComesThrough r fs p)
    {call : Pipeline σ → FileSystem → CallResult σ} (hcall : ComesThrough (call p fs) fs q) :
    ComesThrough (r.andThen call) fs q := by
  obtain ⟨hpipeline, hfiles, hresult⟩ := andThen_of_ok h.result call
  rw [h.pipeline, h.files] at hpipeline hfiles hresult
  exact ⟨hpipeline.trans hcall.pipeline, hfiles.trans hcall.files, hresult.trans hcall.result⟩

/-- What a run tells at its end changes nothing. -/
theorem andThen_finish (r : CallResult σ) :
    (r.andThen finish).pipeline = r.pipeline ∧ (r.andThen finish).result = r.result := by
  cases h : r.result with
  | error e => rw [andThen_of_error h]; exact ⟨rfl, h⟩
  | ok _ =>
      obtain ⟨hpipeline, -, hresult⟩ := andThen_of_ok h finish
      exact ⟨hpipeline, hresult⟩

/-- The pipeline in which a module that came in has been staged and repaired. -/
def prepare (p : Pipeline σ) (m : Module) : Pipeline σ :=
  { p with
    phase := .repaired (preparedContext p.config p.stages m)
    report := preparedReport p.config p.stages m }

/-- A run that cannot load ends there. -/
theorem run_of_error (h : p.phase = .unloaded) {input : String} {e : Error}
    (hload : (p.format.load fs input).1 = .error e) (output : Option String) :
    (p.run fs input output).pipeline = { p with phase := .failed none } ∧
      (p.run fs input output).result = .error (fatal (.load input) e) := by
  obtain ⟨hpipeline, hresult⟩ := load_of_error fs h hload
  rw [run, andThen_of_error hresult, andThen_of_error hresult, andThen_of_error hresult,
    andThen_of_error hresult]
  exact ⟨hpipeline, hresult⟩

/-- **Once a module came in, the stages and the repair come through,** whatever the stages do: a
stage that fails is no call that fails. -/
theorem prepare_comesThrough (h : p.phase = .unloaded) {input : String} {m : Module}
    (hload : (p.format.load fs input).1 = .ok m) :
    ComesThrough (((p.load fs input).andThen applyStages).andThen repair) fs (p.prepare m) := by
  have hloaded := load_of_ok fs h hload
  have hstaged := hloaded.andThen fs (applyStages_of_loaded fs rfl)
  exact hstaged.andThen fs (repair_of_stagesApplied fs rfl)

/-- **A run that could load ends as the save of the prepared pipeline does.**  Stages and repair do
not fail, and so the save is the only other call that can. -/
theorem run_of_ok (h : p.phase = .unloaded) {input : String} {m : Module}
    (hload : (p.format.load fs input).1 = .ok m) (output : Option String) :
    (p.run fs input output).pipeline =
        ((p.prepare m).save fs (output.getD (Path.outputFor input))).pipeline ∧
      (p.run fs input output).result =
        ((p.prepare m).save fs (output.getD (Path.outputFor input))).result := by
  have hprepared := prepare_comesThrough fs h hload
  obtain ⟨hsaved, -, hsavedResult⟩ := andThen_of_ok hprepared.result
    fun p fs => p.save fs (output.getD (Path.outputFor input))
  rw [hprepared.pipeline, hprepared.files] at hsaved hsavedResult
  obtain ⟨hfinished, hfinishedResult⟩ := andThen_finish _
  exact ⟨hfinished.trans hsaved, hfinishedResult.trans hsavedResult⟩

end Calls

/-- From the station of a call to its goal there is a way; a run takes four steps of it. -/
theorem moves_goal (call : PipelineCall) : ReflTransGen Moves call.station call.goal := by
  cases call with
  | load path | install m => exact .single .load
  | applyStages => exact .single .applyStages
  | repair => exact .single .repair
  | save path => exact .single .save
  | run input output =>
      have hprepared : ReflTransGen Moves .unloaded .repaired :=
        ((ReflTransGen.single Moves.load).tail .applyStages).tail .repair
      exact hprepared.tail .save

/-- Where the format fails there is a way to the end. -/
theorem moves_failed {p : Pipeline σ} {fs : FileSystem} {call : PipelineCall}
    (h : call.FormatFails p fs) : ReflTransGen Moves call.station .failed := by
  cases call with
  | load path | run input output => exact .single .loadFails
  | save path => exact .single .saveFails
  | install m | applyStages | repair => exact h.elim

section InPlace

variable (p : Pipeline σ) (fs : FileSystem) (call : PipelineCall)

theorem module?_of_repaired {c : StageContext σ} (h : p.phase = .repaired c) :
    p.module? = some c.module := by
  rw [module?, h]
  rfl

theorem isFatal_load (path : String) (e : Error) : (fatal (.load path) e).isFatal = true :=
  isFatal_fatal (fun _ => rfl) e

theorem isFatal_save (path : String) (e : Error) : (fatal (.save path) e).isFatal = true :=
  isFatal_fatal (fun _ => rfl) e

/-- **A call in its place succeeds** unless the format fails, and then the pipeline is where the
call leads. -/
theorem perform_succeeds (h : p.state = call.station) (hformat : ¬ call.FormatFails p fs) :
    (call.perform p fs).result = .ok () ∧ (call.perform p fs).pipeline.state = call.goal := by
  cases call with
  | load path =>
      cases hload : (p.format.load fs path).1 with
      | error e => exact absurd ⟨e, hload⟩ hformat
      | ok m =>
          obtain ⟨hpipeline, -, hresult⟩ := load_of_ok fs (phase_eq_of_unloaded h) hload
          exact ⟨hresult, congrArg state hpipeline⟩
  | install m =>
      have hinstall := install_of_unloaded fs (phase_eq_of_unloaded h) m
      exact ⟨congrArg (·.result) hinstall, congrArg (·.pipeline.state) hinstall⟩
  | applyStages =>
      obtain ⟨c, hphase⟩ := exists_phase_of_loaded h
      obtain ⟨hpipeline, -, hresult⟩ := applyStages_of_loaded fs hphase
      exact ⟨hresult, congrArg state hpipeline⟩
  | repair =>
      obtain ⟨c, hphase⟩ := exists_phase_of_stagesApplied h
      obtain ⟨hpipeline, -, hresult⟩ := repair_of_stagesApplied fs hphase
      exact ⟨hresult, congrArg state hpipeline⟩
  | save path =>
      obtain ⟨c, hphase⟩ := exists_phase_of_repaired h
      cases hsave : (p.format.save fs p.config.writer c.module path).result with
      | error e => exact absurd ⟨c.module, e, module?_of_repaired p hphase, hsave⟩ hformat
      | ok _ =>
          obtain ⟨hpipeline, hresult⟩ := save_of_ok fs hphase hsave
          exact ⟨hresult, congrArg state hpipeline⟩
  | run input output =>
      have hphase := phase_eq_of_unloaded h
      cases hload : (p.format.load fs input).1 with
      | error e => exact absurd (Or.inl ⟨e, hload⟩) hformat
      | ok m =>
          obtain ⟨hpipeline, hresult⟩ := run_of_ok fs hphase hload output
          have hprepared : (p.prepare m).phase =
              .repaired (preparedContext p.config p.stages m) := rfl
          cases hsave : (p.format.save fs p.config.writer (staged p.config p.stages m).repair.1
              (output.getD (Path.outputFor input))).result with
          | error e => exact absurd (Or.inr ⟨m, e, hload, hsave⟩) hformat
          | ok _ =>
              obtain ⟨hsaved, hok⟩ := save_of_ok fs hprepared hsave
              exact ⟨hresult.trans hok, congrArg state (hpipeline.trans hsaved)⟩

/-- **A call in its place ends the way** if the format fails, with an error that is fatal.  Only a
load and a save ask the format. -/
theorem perform_fails (h : p.state = call.station) (hformat : call.FormatFails p fs) :
    ∃ e, (call.perform p fs).result = .error e ∧ e.isFatal = true ∧
      (call.perform p fs).pipeline.state = .failed := by
  cases call with
  | load path =>
      obtain ⟨e, hload⟩ := hformat
      obtain ⟨hpipeline, hresult⟩ := load_of_error fs (phase_eq_of_unloaded h) hload
      exact ⟨_, hresult, isFatal_load path e, congrArg state hpipeline⟩
  | install m | applyStages | repair => exact hformat.elim
  | save path =>
      obtain ⟨m, e, hmodule, hsave⟩ := hformat
      obtain ⟨c, hphase⟩ := exists_phase_of_repaired h
      obtain rfl : c.module = m :=
        Option.some.inj ((module?_of_repaired p hphase).symm.trans hmodule)
      obtain ⟨hpipeline, hresult⟩ := save_of_error fs hphase hsave
      exact ⟨_, hresult, isFatal_save path e, congrArg state hpipeline⟩
  | run input output =>
      have hphase := phase_eq_of_unloaded h
      rcases hformat with ⟨e, hload⟩ | ⟨m, e, hload, hsave⟩
      · obtain ⟨hpipeline, hresult⟩ := run_of_error fs hphase hload output
        exact ⟨_, hresult, isFatal_load input e, congrArg state hpipeline⟩
      · obtain ⟨hpipeline, hresult⟩ := run_of_ok fs hphase hload output
        have hprepared : (p.prepare m).phase =
            .repaired (preparedContext p.config p.stages m) := rfl
        obtain ⟨hsaved, hfailed⟩ := save_of_error fs hprepared hsave
        exact ⟨_, hresult.trans hfailed, isFatal_save _ e,
          congrArg state (hpipeline.trans hsaved)⟩

end InPlace

/-- **Every call does what its station says,** at every pipeline.  Out of place it is refused, in
place it goes by whether the format fails, and there is no third case. -/
theorem obeys (p : Pipeline σ) (call : PipelineCall) (fs : FileSystem) : p.Obeys call fs := by
  have hrefused : p.state ≠ call.station →
      (call.perform p fs).result = .error (.invalidState call.station p.state) ∧
        (call.perform p fs).pipeline = p := by
    intro hne
    rw [perform_of_ne p fs hne]
    exact ⟨rfl, rfl⟩
  refine ⟨?_, hrefused, fun hend => hrefused (call.station_ne_of_end hend),
    perform_succeeds p fs call, perform_fails p fs call, ?_⟩
  · by_cases hstation : p.state = call.station
    · rw [hstation]
      by_cases hformat : call.FormatFails p fs
      · obtain ⟨e, -, -, hfailed⟩ := perform_fails p fs call hstation hformat
        rw [hfailed]
        exact moves_failed hformat
      · rw [(perform_succeeds p fs call hstation hformat).2]
        exact moves_goal call
    · rw [(hrefused hstation).2]
  · intro e he
    by_cases hstation : p.state = call.station
    · by_cases hformat : call.FormatFails p fs
      · obtain ⟨e', he', hfatal, -⟩ := perform_fails p fs call hstation hformat
        exact Or.inr (Except.error.inj (he'.symm.trans he) ▸ hfatal)
      · exact absurd ((perform_succeeds p fs call hstation hformat).1.symm.trans he) (by simp)
    · exact Or.inl (Except.error.inj ((hrefused hstation).1.symm.trans he)).symm

/-! ### Any calls -/

/-- **What is recorded at a station** about one of the modules that may have come in. -/
def RecordedAt (config : PipelineConfig σ) (stages : List (Stage σ)) (Came : Module → Prop)
    (report : RunReport) : Phase σ → Prop
  | .unloaded | .failed _ => report.output = none
  | .loaded c => ∃ found, Came found ∧ c = config.context found ∧ report = {}
  | .stagesApplied c =>
    ∃ found, Came found ∧ c = (runStages stages (config.context found)).context ∧
      report = reportOfStages {} stages (config.context found)
  | .repaired c =>
    ∃ found, Came found ∧ c = preparedContext config stages found ∧
      report = preparedReport config stages found
  | .saved c =>
    ∃ found path, Came found ∧ c = preparedContext config stages found ∧
      report = { preparedReport config stages found with output := some path }

/-- **The record of a pipeline** that was made with a configuration, a format and stages. -/
structure Recorded (config : PipelineConfig σ) (format : ModuleFormat) (stages : List (Stage σ))
    (Came : Module → Prop) (p : Pipeline σ) : Prop where
  sameConfig : p.config = config
  sameFormat : p.format = format
  sameStages : p.stages = stages
  recorded : RecordedAt config stages Came p.report p.phase

section Record

variable {config : PipelineConfig σ} {format : ModuleFormat} {stages : List (Stage σ)}
  {Came : Module → Prop} {p : Pipeline σ}

/-- A record about some modules is one about more. -/
theorem RecordedAt.mono {Came' : Module → Prop} (h : ∀ m, Came m → Came' m) {report : RunReport}
    {phase : Phase σ} (hr : RecordedAt config stages Came report phase) :
    RecordedAt config stages Came' report phase := by
  cases phase with
  | unloaded | failed c => exact hr
  | loaded c | stagesApplied c | repaired c =>
      obtain ⟨found, hfound, hrest⟩ := hr
      exact ⟨found, h found hfound, hrest⟩
  | saved c =>
      obtain ⟨found, path, hfound, hrest⟩ := hr
      exact ⟨found, path, h found hfound, hrest⟩

theorem Recorded.mono {Came' : Module → Prop} (hr : Recorded config format stages Came p)
    (h : ∀ m, Came m → Came' m) : Recorded config format stages Came' p :=
  ⟨hr.sameConfig, hr.sameFormat, hr.sameStages, hr.recorded.mono h⟩

theorem Recorded.withModule (hr : Recorded config format stages Came p) {m : Module}
    (hm : Came m) : Recorded config format stages Came (p.withModule m) :=
  ⟨hr.sameConfig, hr.sameFormat, hr.sameStages, m, hm, by rw [hr.sameConfig], rfl⟩

/-- Staging and repairing a module keeps the record of it. -/
theorem Recorded.prepare (hr : Recorded config format stages Came p) {m : Module}
    (hm : Came m) : Recorded config format stages Came (p.prepare m) := by
  refine ⟨hr.sameConfig, hr.sameFormat, hr.sameStages, m, hm, ?_, ?_⟩
  · rw [hr.sameConfig, hr.sameStages]
  · change preparedReport p.config p.stages m = _
    rw [hr.sameConfig, hr.sameStages]

/-- Where a load fails, and also where a save does, nothing has been written. -/
theorem Recorded.failed (hr : Recorded config format stages Came p) (c : Option (StageContext σ))
    (houtput : p.report.output = none) :
    Recorded config format stages Came { p with phase := .failed c } :=
  ⟨hr.sameConfig, hr.sameFormat, hr.sameStages, houtput⟩

/-- A save keeps the record, whether it succeeds or not. -/
theorem Recorded.save (hr : Recorded config format stages Came p) (h : p.state = .repaired)
    (fs : FileSystem) (path : String) :
    Recorded config format stages Came (p.save fs path).pipeline := by
  obtain ⟨c, hphase⟩ := exists_phase_of_repaired h
  have hrecorded := hr.recorded
  rw [hphase] at hrecorded
  obtain ⟨found, hfound, hc, hreport⟩ := hrecorded
  cases hsave : (p.format.save fs p.config.writer c.module path).result with
  | error e =>
      rw [(save_of_error fs hphase hsave).1]
      exact hr.failed (some c) (congrArg (·.output) hreport)
  | ok _ =>
      rw [(save_of_ok fs hphase hsave).1]
      refine ⟨hr.sameConfig, hr.sameFormat, hr.sameStages, found, path, hfound, hc, ?_⟩
      change { p.report with output := some path } = _
      rw [hreport]

/-- **Every call keeps the record,** if the module that it may bring in is one of those that may
have come in.  This is the step of the induction over calls. -/
theorem Recorded.perform (hr : Recorded config format stages Came p) (call : PipelineCall)
    (fs : FileSystem) (hcall : ∀ m, call.Brings format fs m → Came m) :
    Recorded config format stages Came (call.perform p fs).pipeline := by
  by_cases h : p.state = call.station
  -- A call at another station is refused and changes nothing.
  swap
  · rw [perform_of_ne p fs h]
    exact hr
  have hrecorded := hr.recorded
  cases call with
  | load path =>
      have hphase := phase_eq_of_unloaded h
      rw [hphase] at hrecorded
      cases hload : (p.format.load fs path).1 with
      | error e =>
          rw [PipelineCall.perform, (load_of_error fs hphase hload).1]
          exact hr.failed none hrecorded
      | ok m =>
          rw [PipelineCall.perform, (load_of_ok fs hphase hload).1]
          exact hr.withModule (hcall m (hr.sameFormat ▸ hload))
  | install m =>
      rw [PipelineCall.perform, install_of_unloaded fs (phase_eq_of_unloaded h)]
      exact hr.withModule (hcall m rfl)
  | applyStages =>
      obtain ⟨c, hphase⟩ := exists_phase_of_loaded h
      rw [hphase] at hrecorded
      obtain ⟨found, hfound, rfl, hreport⟩ := hrecorded
      rw [PipelineCall.perform, (applyStages_of_loaded fs hphase).1]
      -- The context is what the configuration makes of the module that came in.
      refine ⟨hr.sameConfig, hr.sameFormat, hr.sameStages, found, hfound, ?_, ?_⟩
      · rw [hr.sameStages]
      · change reportOfStages p.report p.stages (config.context found) = _
        rw [hr.sameStages, hreport]
  | repair =>
      obtain ⟨c, hphase⟩ := exists_phase_of_stagesApplied h
      rw [hphase] at hrecorded
      obtain ⟨found, hfound, rfl, hreport⟩ := hrecorded
      rw [PipelineCall.perform, (repair_of_stagesApplied fs hphase).1]
      refine ⟨hr.sameConfig, hr.sameFormat, hr.sameStages, found, hfound, rfl, ?_⟩
      change RunReport.mk p.report.stagesRun p.report.failures _ p.report.output = _
      rw [hreport]
      rfl
  | save path => exact hr.save h fs path
  | run input output =>
      have hphase := phase_eq_of_unloaded h
      rw [hphase] at hrecorded
      cases hload : (p.format.load fs input).1 with
      | error e =>
          rw [PipelineCall.perform, (run_of_error fs hphase hload output).1]
          exact hr.failed none hrecorded
      | ok m =>
          rw [PipelineCall.perform, (run_of_ok fs hphase hload output).1]
          exact (hr.prepare (hcall m (hr.sameFormat ▸ hload))).save rfl fs _

theorem performAll_concat (p : Pipeline σ) (calls : List (PipelineCall × FileSystem))
    (last : PipelineCall × FileSystem) :
    p.performAll (calls ++ [last]) = (last.1.perform (p.performAll calls) last.2).pipeline := by
  induction calls generalizing p with
  | nil => rfl
  | cons call calls ih => exact ih _

/-- One of some calls brought a module in. -/
def BroughtBy (format : ModuleFormat) (calls : List (PipelineCall × FileSystem)) (m : Module) :
    Prop :=
  ∃ call ∈ calls, call.1.Brings format call.2 m

/-- **The record after any calls.**  By induction from the last call; the modules that may have come
in grow with the calls, and a record about fewer of them is one about more. -/
theorem recorded_performAll (config : PipelineConfig σ) (format : ModuleFormat)
    (stages : List (Stage σ)) (calls : List (PipelineCall × FileSystem)) :
    Recorded config format stages (BroughtBy format calls)
      ((new config format stages).performAll calls) := by
  induction calls using List.reverseRecOn with
  | nil => exact ⟨rfl, rfl, rfl, rfl⟩
  | append_singleton calls last ih =>
      rw [performAll_concat]
      have hearlier : Recorded config format stages (BroughtBy format (calls ++ [last]))
          ((new config format stages).performAll calls) :=
        ih.mono fun m ⟨call, hcall, hm⟩ => ⟨call, List.mem_append_left _ hcall, hm⟩
      exact hearlier.perform last.1 last.2 fun m hm =>
        ⟨last, List.mem_append_right _ (List.mem_singleton_self last), hm⟩

/-- An output is reported exactly where a module has been saved.  A report is started anew with each
module, so that none is left from before. -/
theorem Recorded.output_iff (hr : Recorded config format stages Came p) :
    p.report.output.isSome = true ↔ p.state = .saved := by
  have hrecorded := hr.recorded
  rw [state]
  cases hphase : p.phase with
  | unloaded | failed c =>
      rw [hphase] at hrecorded
      have hnone : p.report.output = none := hrecorded
      simp [hnone, Phase.state]
  | loaded c | stagesApplied c | repaired c =>
      rw [hphase] at hrecorded
      obtain ⟨found, -, -, hreport⟩ := hrecorded
      simp [hreport, reportOfStages, preparedReport, Phase.state]
  | saved c =>
      rw [hphase] at hrecorded
      obtain ⟨found, path, -, -, hreport⟩ := hrecorded
      simp [hreport, Phase.state]

/-- From the stages on, a pipeline holds what the stages left, repaired or not.  The record in the
report is that of the very run of stages that led there. -/
theorem Recorded.staged (hr : Recorded config format stages Came p)
    (hstate : p.state = .stagesApplied ∨ p.state = .repaired ∨ p.state = .saved) :
    ∃ found left, Came found ∧ StagedInOrder stages (config.context found) left p.report ∧
      p.phase.context? = some (if p.state = .stagesApplied then left
        else { left with module := left.module.repair.1 }) := by
  have hrecorded := hr.recorded
  rw [state] at hstate ⊢
  cases hphase : p.phase with
  | unloaded | loaded c | failed c => simp [hphase, Phase.state] at hstate
  | stagesApplied c | repaired c =>
      rw [hphase] at hrecorded
      obtain ⟨found, hfound, hc, hreport⟩ := hrecorded
      refine ⟨found, _, hfound, stagedInOrder_runStages stages _ ?_ ?_, congrArg some hc⟩ <;>
        rw [hreport] <;> rfl
  | saved c =>
      rw [hphase] at hrecorded
      obtain ⟨found, path, hfound, hc, hreport⟩ := hrecorded
      refine ⟨found, _, hfound, stagedInOrder_runStages stages _ ?_ ?_, congrArg some hc⟩ <;>
        rw [hreport] <;> rfl

end Record

/-- **Calls in any order follow the stations.**  After whatever calls, with whatever format and
stages: every further call moves along the stations, succeeds or ends the way fatally in its place,
and is refused without effect everywhere else, so that nothing follows a save or a failure; an
output is reported exactly after a save; and once the stages are applied, each of them has been,
once and in order, to the context that the one before it left, the first of them to the module that
one of the calls brought in, and the report divides them into those that ran and those that
failed. -/
theorem calls_follow_lifecycle (config : PipelineConfig σ) (format : ModuleFormat)
    (stages : List (Stage σ)) (calls : List (PipelineCall × FileSystem)) :
    let p := (new config format stages).performAll calls
    (∀ call fs, p.Obeys call fs) ∧
      (p.report.output.isSome = true ↔ p.state = .saved) ∧
      (p.state = .stagesApplied ∨ p.state = .repaired ∨ p.state = .saved →
        ∃ found left, BroughtBy format calls found ∧
          StagedInOrder stages (config.context found) left p.report ∧
          p.phase.context? = some (if p.state = .stagesApplied then left
            else { left with module := left.module.repair.1 })) := by
  intro p
  have hrecorded := recorded_performAll config format stages calls
  exact ⟨p.obeys, hrecorded.output_iff, hrecorded.staged⟩

end Pipeline

end CilRepair
