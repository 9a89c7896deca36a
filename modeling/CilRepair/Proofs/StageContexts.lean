import CilRepair.Proofs.ModuleBodies

/-!
# The contexts that stages meet

A stage is applied to what the stage before it left, whether that one failed or not.  Here this is
said place by place: which context the stage at a place meets, and what is recorded of it.

* `ContextsMet` — a sequence of contexts, each of which a stage turns into the next.
* `contextAt`, `contextsMet_contextAt` — the sequence of `runStages`.
* `namesRun`, `failuresMet` — what the stages at their places have to be recorded as.
* `StagedInOrder`, `stagedInOrder_runStages` — every stage once and in order, and the record of it.

## Design notes

`runStages` threads context and record through the stages at once.  For a statement about a whole
run the two are taken apart: first what each stage meets, as a sequence of contexts, and then what
the record must be, as a function of that sequence.  A stage that fails halfway hands on what it
has, so its failure does not show in the contexts and has to be recorded beside them.
-/

namespace CilRepair

variable {σ : Type}

/-- **The contexts that stages meet,** one after the other: each stage meets what the stage before
it left, whether that one failed or not. -/
structure ContextsMet (stages : List (Stage σ)) (start : StageContext σ)
    (met : ℕ → StageContext σ) : Prop where
  zero : met 0 = start
  succ : ∀ n stage, stages[n]? = some stage → met (n + 1) = (stage.apply (met n)).context

/-- The names of the stages that succeed in the contexts they meet, in order. -/
def namesRun (stages : List (Stage σ)) (met : ℕ → StageContext σ) : List String :=
  (stages.zipIdx.filter fun (stage, n) => (stage.apply (met n)).failure.isNone).map (·.1.name)

/-- The failures of the stages that do not. -/
def failuresMet (stages : List (Stage σ)) (met : ℕ → StageContext σ) : List StageFailure :=
  stages.zipIdx.filterMap fun (stage, n) =>
    (stage.apply (met n)).failure.map fun e => ⟨stage.name, e.message⟩

/-- Stages in two parts: the second part meets what the first one left. -/
theorem context_runStages_append (stages later : List (Stage σ)) (c : StageContext σ) :
    (runStages (stages ++ later) c).context =
      (runStages later (runStages stages c).context).context := by
  induction stages generalizing c with
  | nil => rfl
  | cons stage stages ih =>
      rw [List.cons_append, context_runStages_cons, ih, context_runStages_cons]

/-- The context that the stage at a place meets. -/
def contextAt (stages : List (Stage σ)) (start : StageContext σ) (n : ℕ) : StageContext σ :=
  (runStages (stages.take n) start).context

/-- **That is the sequence of contexts of a run.** -/
theorem contextsMet_contextAt (stages : List (Stage σ)) (start : StageContext σ) :
    ContextsMet stages start (contextAt stages start) where
  zero := rfl
  succ n stage h := by
    rw [contextAt, List.take_add_one, h, context_runStages_append]
    exact context_runStages_cons stage [] _

/-- What `runStages` records, for stages that begin at any place of a longer list.  The induction is
on the stages, and the place moves along with them. -/
theorem runStages_records (stages : List (Stage σ)) (start : StageContext σ) (k : ℕ)
    (met : ℕ → StageContext σ) (hmet : ∀ n, met (k + n) = contextAt stages start n) :
    (runStages stages start).stagesRun =
        ((stages.zipIdx k).filter fun (stage, n) =>
          (stage.apply (met n)).failure.isNone).map (·.1.name) ∧
      (runStages stages start).failures =
        (stages.zipIdx k).filterMap fun (stage, n) =>
          (stage.apply (met n)).failure.map fun e => ⟨stage.name, e.message⟩ := by
  induction stages generalizing start k with
  | nil => exact ⟨rfl, rfl⟩
  | cons stage stages ih =>
      have hhead : met k = start := hmet 0
      have htail : ∀ n, met (k + 1 + n) = contextAt stages (stage.apply start).context n := by
        intro n
        rw [Nat.add_right_comm, Nat.add_assoc, hmet, contextAt, List.take_succ_cons,
          context_runStages_cons]
        rfl
      obtain ⟨hrun, hfailures⟩ := ih (stage.apply start).context (k + 1) htail
      rw [List.zipIdx_cons, List.filter_cons, List.filterMap_cons, runStages]
      simp only [hhead]
      cases hfailure : (stage.apply start).failure with
      | none => simp [hrun, hfailures]
      | some e => simp [hrun, hfailures]

/-- **Stages applied in order,** each once: the context that they leave, and what is recorded of
them. -/
structure StagedInOrder (stages : List (Stage σ)) (start left : StageContext σ)
    (report : RunReport) : Prop where
  contexts : ∃ met, ContextsMet stages start met ∧ met stages.length = left ∧
    report.stagesRun = namesRun stages met ∧ report.failures = failuresMet stages met

/-- **A run applies its stages in order.**  Nothing is asked of the report but its two records. -/
theorem stagedInOrder_runStages (stages : List (Stage σ)) (start : StageContext σ)
    {report : RunReport} (hrun : report.stagesRun = (runStages stages start).stagesRun)
    (hfailures : report.failures = (runStages stages start).failures) :
    StagedInOrder stages start (runStages stages start).context report := by
  obtain ⟨hnames, hfailed⟩ := runStages_records stages start 0 (contextAt stages start)
    fun n => congrArg _ (Nat.zero_add n)
  refine ⟨contextAt stages start, contextsMet_contextAt stages start, ?_, hrun.trans hnames,
    hfailures.trans hfailed⟩
  rw [contextAt, List.take_length]

end CilRepair
