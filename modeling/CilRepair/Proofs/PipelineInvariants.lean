import CilRepair.Proofs.ModuleBodies

/-!
# What a pipeline persists

Between its calls a pipeline is at a station, and what it holds there is what the calls before must
have made of the module that was loaded.  Calls come in any order; one that comes at the wrong
station changes nothing, so the station alone tells which calls had an effect.

* `PipelineCall`, `Pipeline.Reachable` — calls as data, and the pipelines that they lead to.
* `ModuleFormat.LoadsValid`, `imageFormat_loadsValid` — the modules that a reader lets through.
* `Pipeline.Holds` — what a pipeline holds at its station; `Reachable.holds` by induction.
* `Pipeline.repaired_module_valid` — what is held after the repair, and the report about it.

Nothing is assumed about the stages but that they edit bodies and do not make them up.  They may
fail halfway, and what they leave then is repaired like anything else.

## Design notes

The invariant `Holds` has the module that came in existentially, and not as a state of its own: a
pipeline does not remember it.  What the calls made of it is a function of it, `staged`, and so one
witness serves all stations.

Reports are part of the invariant.  They are written at one station and read at a later one, and
nothing else says that no call in between touches them.

Only the last step needs identities to be left.  `fullRun_invalid` is a run in which there are none,
and shows that the condition cannot be dropped: repair then makes a valid body invalid.
-/

namespace CilRepair

/-! ### Modules that are let through -/

/-- A format reads only modules whose bodies are valid. -/
def ModuleFormat.LoadsValid (format : ModuleFormat) : Prop :=
  ∀ fs path m, (format.load fs path).1 = .ok m → m.ArenasValid

/-- **The format of images reads only valid bodies.**  A reader that finds a fault in the arena of
some body refuses the whole image. -/
theorem imageFormat_loadsValid : imageFormat.LoadsValid := by
  intro fs path m h
  have h : Image.load fs path = .ok m := h
  unfold Image.load at h
  split at h
  · exact absurd h (by simp)
  · split at h
    · exact absurd h (by simp)
    · next hparse => exact Image.arenasValid_of_parse (Except.ok.inj h ▸ hparse)

/-! ### Calls -/

/-- A call of a pipeline. -/
inductive PipelineCall
  | load (path : String)
  | install (module : Module)
  | applyStages
  | repair
  | save (path : String)
  | run (input : String) (output : Option String)

variable {σ : Type}

/-- What a call leaves. -/
def PipelineCall.perform (p : Pipeline σ) (fs : FileSystem) : PipelineCall → CallResult σ
  | load path => p.load fs path
  | install module => p.install fs module
  | applyStages => p.applyStages fs
  | repair => p.repair fs
  | save path => p.save fs path
  | run input output => p.run fs input output

/-- A module that is put in has to be valid. -/
def PipelineCall.Admissible : PipelineCall → Prop
  | install module => module.ArenasValid
  | _ => True

namespace Pipeline

/-- **The pipelines that calls lead to.**  The files may be others at each call. -/
inductive Reachable (config : PipelineConfig σ) (format : ModuleFormat) (stages : List (Stage σ)) :
    Pipeline σ → Prop
  | new : Reachable config format stages (new config format stages)
  | call {p : Pipeline σ} (hp : Reachable config format stages p) (call : PipelineCall)
      (hcall : call.Admissible) (fs : FileSystem) :
      Reachable config format stages (call.perform p fs).pipeline

/-- The pipeline after calls, each with the files as it meets them. -/
def performAll (p : Pipeline σ) : List (PipelineCall × FileSystem) → Pipeline σ
  | [] => p
  | (call, fs) :: calls => (call.perform p fs).pipeline.performAll calls

/-- Calls in a row lead from one of these pipelines to another. -/
theorem Reachable.performAll {config : PipelineConfig σ} {format : ModuleFormat}
    {stages : List (Stage σ)} {p : Pipeline σ} (hp : Reachable config format stages p)
    {calls : List (PipelineCall × FileSystem)} (h : ∀ call ∈ calls, call.1.Admissible) :
    Reachable config format stages (p.performAll calls) := by
  induction calls generalizing p with
  | nil => exact hp
  | cons call calls ih =>
      obtain ⟨hcall, hcalls⟩ := List.forall_mem_cons.mp h
      exact ih (hp.call call.1 hcall call.2) hcalls

/-- What the stages make of a module. -/
def staged (config : PipelineConfig σ) (stages : List (Stage σ)) (m : Module) : Module :=
  (runStages stages (config.context m)).context.module

/-- **What a pipeline holds at its station,** in terms of the module that came in. -/
def HoldsAt (config : PipelineConfig σ) (stages : List (Stage σ)) (found : Module)
    (report : RunReport) : Phase σ → Prop
  | .unloaded | .failed _ => True
  | .loaded c => c = config.context found
  | .stagesApplied c => c.module = staged config stages found
  | .repaired c | .saved c =>
    c.module = (staged config stages found).repair.1 ∧
      report.repair = ModuleRepair.ofBodies (staged config stages found).repair.2

/-- **The state of a pipeline between calls.** -/
structure Holds (config : PipelineConfig σ) (format : ModuleFormat) (stages : List (Stage σ))
    (p : Pipeline σ) : Prop where
  sameConfig : p.config = config
  sameFormat : p.format = format
  sameStages : p.stages = stages
  held : ∃ found, found.ArenasValid ∧ HoldsAt config stages found p.report p.phase

section Calls

variable {config : PipelineConfig σ} {format : ModuleFormat} {stages : List (Stage σ)}
  {p : Pipeline σ}

/-- A pipeline into which a valid module has been put.  Whatever it held before is forgotten, its
report included. -/
theorem Holds.withModule (h : Holds config format stages p) {m : Module} (hm : m.ArenasValid) :
    Holds config format stages (p.withModule m) := by
  refine ⟨h.sameConfig, h.sameFormat, h.sameStages, m, hm, ?_⟩
  change p.config.context m = config.context m
  rw [h.sameConfig]

/-- A load puts in a module that the format lets through, or fails; and a failed pipeline holds
nothing in particular. -/
theorem Holds.load (h : Holds config format stages p) (hformat : format.LoadsValid)
    (fs : FileSystem) (path : String) :
    Holds config format stages (p.load fs path).pipeline := by
  obtain ⟨found, hfound, -⟩ := h.held
  rw [Pipeline.load]
  cases hphase : p.phase with
  | unloaded =>
      dsimp only
      cases hload : (p.format.load fs path).1 with
      | error e => exact ⟨h.sameConfig, h.sameFormat, h.sameStages, found, hfound, trivial⟩
      | ok m => exact h.withModule (hformat fs path m (h.sameFormat ▸ hload))
  | _ => exact h

/-- To put in a module is to load it without a file. -/
theorem Holds.install (h : Holds config format stages p) (fs : FileSystem) {m : Module}
    (hm : m.ArenasValid) : Holds config format stages (p.install fs m).pipeline := by
  rw [Pipeline.install]
  cases hphase : p.phase with
  | unloaded => exact h.withModule hm
  | _ => exact h

/-- The stages are applied to the context that was loaded.  At another station nothing happens. -/
theorem Holds.applyStages (h : Holds config format stages p) (fs : FileSystem) :
    Holds config format stages (p.applyStages fs).pipeline := by
  obtain ⟨found, hfound, hholds⟩ := h.held
  rw [Pipeline.applyStages]
  cases hphase : p.phase with
  | loaded c =>
      rw [hphase] at hholds
      have hc : c = config.context found := hholds
      refine ⟨h.sameConfig, h.sameFormat, h.sameStages, found, hfound, ?_⟩
      change (runStages p.stages c).context.module = staged config stages found
      rw [hc, h.sameStages, staged]
  | _ => exact h

/-- Repair works on what the stages left, and its report goes with it. -/
theorem Holds.repair (h : Holds config format stages p) (fs : FileSystem) :
    Holds config format stages (p.repair fs).pipeline := by
  obtain ⟨found, hfound, hholds⟩ := h.held
  rw [Pipeline.repair]
  cases hphase : p.phase with
  | stagesApplied c =>
      rw [hphase] at hholds
      have hc : c.module = staged config stages found := hholds
      refine ⟨h.sameConfig, h.sameFormat, h.sameStages, found, hfound, ?_⟩
      change c.module.repair.1 = (staged config stages found).repair.1 ∧
        ModuleRepair.ofBodies c.module.repair.2 =
          ModuleRepair.ofBodies (staged config stages found).repair.2
      rw [hc]
      exact ⟨rfl, rfl⟩
  | _ => exact h

/-- To save moves a pipeline to another station with what it holds, and a file that cannot be
written makes it fail. -/
theorem Holds.save (h : Holds config format stages p) (fs : FileSystem) (path : String) :
    Holds config format stages (p.save fs path).pipeline := by
  obtain ⟨found, hfound, hholds⟩ := h.held
  rw [Pipeline.save]
  cases hphase : p.phase with
  | repaired c =>
      rw [hphase] at hholds
      dsimp only
      split
      · exact ⟨h.sameConfig, h.sameFormat, h.sameStages, found, hfound, hholds⟩
      · exact ⟨h.sameConfig, h.sameFormat, h.sameStages, found, hfound, trivial⟩
  | _ => exact h

/-- A call after another one keeps what each of them keeps. -/
theorem Holds.andThen {r : CallResult σ} (h : Holds config format stages r.pipeline)
    {f : Pipeline σ → FileSystem → CallResult σ}
    (hcall : ∀ {p}, Holds config format stages p → ∀ fs,
      Holds config format stages (f p fs).pipeline) :
    Holds config format stages (r.andThen f).pipeline := by
  rw [CallResult.andThen]
  split
  · exact h
  · exact hcall h r.files

/-- **Every call keeps what a pipeline holds.**  There is one case for each call; that of a whole
run is composed of the others. -/
theorem Holds.perform (h : Holds config format stages p) (hformat : format.LoadsValid)
    {call : PipelineCall} (hcall : call.Admissible) (fs : FileSystem) :
    Holds config format stages (call.perform p fs).pipeline := by
  cases call with
  | load path => exact h.load hformat fs path
  | install m => exact h.install fs hcall
  | applyStages => exact h.applyStages fs
  | repair => exact h.repair fs
  | save path => exact h.save fs path
  | run input output =>
      have hload := h.load hformat fs input
      have hstages := hload.andThen (f := Pipeline.applyStages) fun h fs => h.applyStages fs
      have hrepair := hstages.andThen (f := Pipeline.repair) fun h fs => h.repair fs
      have hsave := hrepair.andThen fun h fs => h.save fs (output.getD (Path.outputFor input))
      exact hsave.andThen (f := finish) fun h _ => h

/-- **Whatever calls are made, a pipeline holds what its station says.**  By induction on the
calls. -/
theorem Reachable.holds (hformat : format.LoadsValid) (hp : Reachable config format stages p) :
    Holds config format stages p := by
  induction hp with
  | new =>
      have hnew : (Module.new "").ArenasValid := fun b hb => absurd hb List.not_mem_nil
      exact ⟨rfl, rfl, rfl, Module.new "", hnew, trivial⟩
  | call _ call hcall fs ih => exact ih.perform hformat hcall fs

/-- At the last two stations a pipeline has a module, which is a repaired one, and the report about
that very repair. -/
theorem Holds.repaired (h : Holds config format stages p)
    (hstate : p.state = .repaired ∨ p.state = .saved) :
    ∃ found, found.ArenasValid ∧ p.module? = some (staged config stages found).repair.1 ∧
      p.report.repair = ModuleRepair.ofBodies (staged config stages found).repair.2 := by
  obtain ⟨found, hfound, hheld⟩ := h.held
  refine ⟨found, hfound, ?_⟩
  cases hphase : p.phase with
  | repaired c | saved c =>
      rw [hphase] at hheld
      obtain ⟨hmodule, hreport⟩ := hheld
      refine ⟨?_, hreport⟩
      rw [module?, hphase, ← hmodule]
      rfl
  | _ => simp [state, hphase, Phase.state] at hstate

end Calls

/-- **What a pipeline holds after the repair is valid, whatever the stages did.**  Images with
invalid bodies are not read.  Let the format read only valid bodies, let the stages edit bodies as
they like and fail where they like, and let calls come in any order.  Once the module is repaired,
saved or not, its bodies are those that the stages left, each of them repaired; each is valid and
has the structural invariants, if there are identities for all its slots; and the report counts the
bodies, those that repair changed, and all that was repaired in them. -/
theorem repaired_module_valid (config : PipelineConfig σ) (format : ModuleFormat)
    (stages : List (Stage σ)) (hformat : format.LoadsValid)
    (hstages : ∀ stage ∈ stages, stage.Edits) (p : Pipeline σ)
    (hp : Reachable config format stages p) (hstate : p.state = .repaired ∨ p.state = .saved) :
    (∀ bytes m, Image.parse bytes = .ok m → m.ArenasValid) ∧
    ∃ found m, found.ArenasValid ∧ p.module? = some m ∧
      m.bodies = (staged config stages found).bodies.map (fun b => b.repairAndLayOut.1) ∧
      (∀ b ∈ m.bodies, b.Addressable → b.ArenaValid ∧ b.Sound) ∧
      p.report.repair.checked = m.bodies.length ∧
      ((∀ b ∈ m.bodies, b.Addressable) →
        p.report.repair.repaired =
          (staged config stages found).bodies.countP fun b => b.repairAndLayOut.1 ≠ b) ∧
      p.report.repair.totals =
        ((staged config stages found).bodies.map fun b => b.repairAndLayOut.2).sum := by
  obtain ⟨found, hfound, hmodule, hreport⟩ := (hp.holds hformat).repaired hstate
  have hedited := runStages_edits hstages (config.context found)
  have hvalid : ∀ b ∈ (staged config stages found).bodies, b.Addressable → b.ArenaValid :=
    fun b hb => (hedited b hb).arenaValid fun c hc _ => hfound c hc
  have hbodies := (staged config stages found).bodies_repair
  -- The report is a sum over bodies, in the order in which the module has them.
  rw [ModuleRepair.ofBodies_repair] at hreport
  refine ⟨fun _ _ => Image.arenasValid_of_parse, found, _, hfound, hmodule, hbodies, ?_, ?_, ?_, ?_⟩
  · intro c hc haddressable
    rw [hbodies] at hc
    obtain ⟨b, hb, rfl⟩ := List.mem_map.mp hc
    have hb' := hvalid b hb ((MethodBody.keepsValid_repairAndLayOut b).addressable haddressable)
    obtain ⟨hvalid', hintact⟩ :=
      MethodBody.intact_repairAndLayOut hb' (MethodBody.room_of_addressable haddressable)
    exact ⟨hvalid', hintact.toSound⟩
  · rw [hreport, hbodies, List.length_map]
  · intro haddressable
    rw [hreport]
    refine List.countP_congr fun b hb => ?_
    have hmem : b.repairAndLayOut.1 ∈ (staged config stages found).repair.1.bodies := by
      rw [hbodies]
      exact List.mem_map_of_mem hb
    have hb' := hvalid b hb
      ((MethodBody.keepsValid_repairAndLayOut b).addressable (haddressable _ hmem))
    rw [decide_eq_true_iff, MethodBody.repairAndLayOut_ne_iff hb']
  · rw [hreport]

/-- A stage that takes the last instruction off every body and then gives up. -/
def truncation : Stage Unit where
  name := "truncate"
  description := "Drops the end of every body"
  apply c :=
    { context :=
        { c with
          module := c.module.mapBodies fun b => ((b.last?.map b.remove).getD b) }
      failure := some (.stage "truncate" "gave up") }

/-- It edits bodies, and it may fail: a stage is asked for no more. -/
theorem truncation_edits : truncation.Edits := by
  intro c b hb
  have hbodies : (truncation.apply c).context.module.bodies =
      c.module.bodies.map fun b => (b.last?.map b.remove).getD b := by
    change (c.module.mapBodies _).bodies = _
    rw [Module.mapBodies, Module.bodies_visitBodies, Module.bodies_eq_map_entries, List.map_map]
    rfl
  rw [hbodies] at hb
  obtain ⟨b₀, hb₀, rfl⟩ := List.mem_map.mp hb
  have hfound : MethodBody.EditedFrom (· ∈ c.module.bodies) b₀ := .found hb₀
  cases b₀.last? with
  | none => exact hfound
  | some id => exact hfound.edit (.remove id)

/-- A type with a body that needs its last instruction, one that does not, and no third one. -/
def truncatedModule : Module where
  name := "sample"
  types :=
    [{ TypeDef.new ⟨1⟩ "" "T" with
        methods :=
          [{ MethodDef.new ⟨2⟩ "f" with body := some (.ofInstructions [.nop, .ret]) },
            { MethodDef.new ⟨3⟩ "g" with body := some (.ofInstructions [.ret, .nop]) },
            .new ⟨4⟩ "h"] }]
  entryPoint := none

/-- Calls of which only some come at the right station. -/
def truncatedRun : Pipeline Unit :=
  (new { source := () } imageFormat [truncation]).performAll
    [(.repair, .empty), (.install truncatedModule, .empty), (.save "out.json", .empty),
      (.applyStages, .empty), (.load "in.json", .empty), (.repair, .empty)]

/-- The failed stage stays in the record, one of the two bodies had to be closed, and both are
valid. -/
theorem truncatedRun_valid :
    truncatedRun.state = .repaired ∧
      truncatedRun.report.repair =
        { checked := 2, repaired := 1, totals := { appendedReturns := 1 } } ∧
      ∃ m, truncatedRun.module? = some m ∧
        ∀ b ∈ m.bodies, b.Addressable → b.ArenaValid ∧ b.Sound := by
  have hmodule : truncatedModule.ArenasValid := by
    unfold Module.ArenasValid
    decide
  have hreachable : Reachable { source := () } imageFormat [truncation] truncatedRun := by
    refine Reachable.new.performAll ?_
    simp [PipelineCall.Admissible, hmodule]
  have hstate : truncatedRun.state = .repaired := rfl
  obtain ⟨-, found, m, -, hm, -, hvalid, -⟩ := repaired_module_valid { source := () } imageFormat
    [truncation] imageFormat_loadsValid (List.forall_mem_singleton.mpr truncation_edits)
    truncatedRun hreachable (Or.inl hstate)
  exact ⟨hstate, by decide, m, hm, hvalid⟩

/-- A module with the full body for its only method. -/
def fullModule : Module where
  name := "sample"
  types :=
    [{ TypeDef.new ⟨1⟩ "" "T" with
        methods := [{ MethodDef.new ⟨2⟩ "f" with body := some MethodBody.fullBody }] }]
  entryPoint := none

/-- A run without any stage, up to the repair. -/
def fullRun : Pipeline Unit :=
  (new { source := () } imageFormat []).performAll
    [(.install fullModule, .empty), (.applyStages, .empty), (.repair, .empty)]

/-- **Without identities for all slots the repair can make a valid body invalid.**  The appended
return gets an identity that is in the sequence already, so that the sequence names a slot twice. -/
theorem fullRun_invalid :
    fullModule.ArenasValid ∧ Reachable { source := () } imageFormat [] fullRun ∧
      fullRun.state = .repaired ∧
      ∃ m, fullRun.module? = some m ∧ ∃ b ∈ m.bodies, b.arenaFault? ≠ none := by
  have hmodule : fullModule.ArenasValid := by
    intro b hb
    obtain rfl : b = MethodBody.fullBody := List.mem_singleton.mp hb
    exact MethodBody.arenaValid_fullBody
  have hreachable : Reachable { source := () } imageFormat [] fullRun := by
    refine Reachable.new.performAll ?_
    simp [PipelineCall.Admissible, hmodule]
  have horder : MethodBody.fullBody.repairAndLayOut.1.order = [⟨0⟩, ⟨0⟩] := by
    rw [MethodBody.order_of_erased_eq MethodBody.fullBody.erased_repairAndLayOut,
      MethodBody.repair_fullBody]
  refine ⟨hmodule, hreachable, rfl, fullModule.repair.1, rfl,
    MethodBody.fullBody.repairAndLayOut.1, ?_, fun hfault => ?_⟩
  · rw [Module.bodies_repair]
    exact List.mem_singleton.mpr rfl
  · have hnodup := (MethodBody.arenaFault?_eq_none_iff.mp hfault).nodup
    rw [horder] at hnodup
    exact absurd hnodup (by decide)

end Pipeline

end CilRepair
