import CilRepair.Pipeline.Basic
import CilRepair.Proofs.Edits

/-!
# The bodies of a module

A pass over a module, a stage and the repair of a whole module visit every body once and in order,
and what they do to one body depends at most on its type and its method.

* `Module.bodies`, `Module.bodyEntries` — the bodies, alone and with where they are;
  `Module.ArenasValid`, all of them valid.
* `Module.bodies_visitBodies`, `Module.answers_visitBodies` — a visit is a map over them.
* `Image.fault?_eq_none_iff`, `Image.arenasValid_of_parse` — the check of a reader decides whether
  all bodies are valid.
* `Module.bodies_repair`, `ModuleRepair.ofBodies_repair` — the repair of a module and its report.
* `Reworked`, `reworksBodies_of_builtin` — what the built-in stages make of bodies.
* `Stage.Edits`, `runStages_edits` — stages that only edit bodies, one after the other.

## Design notes

All that is proved of modules here goes through the list of bodies.  A visit becomes a map over it,
so a property of one body becomes one of all, and nothing is proved by induction over types and
methods more than once.

Stages are described twice.  `Reworked` says what the built-in ones do, precisely enough to count
the bytes by which folding made code longer.  `Stage.Edits` says only that each body comes by edits
from bodies that were there, and is what a theorem about stages of any kind can ask for; that the
built-in ones satisfy it follows from the first description.
-/

namespace CilRepair

/-! ### Visits -/

section Visit

variable {α : Type}

/-- A visit changes the body of a method, if it has one. -/
theorem MethodDef.body_visitBody (f : MethodBody → MethodBody × α) (m : MethodDef) :
    (m.visitBody f).1.body = m.body.map fun b => (f b).1 := by
  rw [visitBody]
  cases hbody : m.body with
  | none => exact hbody
  | some b => rfl

theorem MethodDef.answers_visitBody (f : MethodBody → MethodBody × α) (m : MethodDef) :
    (m.visitBody f).2 = (m.body.map fun b => (f b).2).toList := by
  rw [visitBody]
  cases m.body <;> rfl

namespace Module

/-- The bodies of a module, in order. -/
def bodies (m : Module) : List MethodBody :=
  m.types.flatMap fun t => t.methods.filterMap (·.body)

/-- The bodies of a module with their types and methods. -/
def bodyEntries (m : Module) : List (TypeDef × MethodDef × MethodBody) :=
  m.types.flatMap fun t => t.methods.filterMap fun method => method.body.map (t, method, ·)

/-- Every body of a module is valid. -/
def ArenasValid (m : Module) : Prop := ∀ b ∈ m.bodies, b.ArenaValid

theorem mem_bodies_iff {m : Module} {b : MethodBody} :
    b ∈ m.bodies ↔ ∃ t ∈ m.types, ∃ method ∈ t.methods, method.body = some b := by
  simp only [bodies, List.mem_flatMap, List.mem_filterMap]

variable (f : TypeDef → MethodDef → MethodBody → MethodBody × α) (m : Module)

/-- The entries have the bodies in the same order. -/
theorem bodies_eq_map_entries : m.bodies = m.bodyEntries.map fun entry => entry.2.2 := by
  rw [bodies, bodyEntries, List.map_flatMap]
  refine List.flatMap_congr fun t _ => ?_
  rw [List.map_filterMap]
  refine List.filterMap_congr fun method _ => ?_
  cases method.body <;> rfl

/-- **The bodies after a visit** are the visited ones, in their order, each with its own type and
method. -/
theorem bodies_visitBodies :
    (m.visitBodies f).1.bodies =
      m.bodyEntries.map fun entry => (f entry.1 entry.2.1 entry.2.2).1 := by
  have htypes : (m.visitBodies f).1.types = m.types.map fun t => (t.visitBodies (f t)).1 :=
    List.map_map
  have hmethods : ∀ t : TypeDef, (t.visitBodies (f t)).1.methods =
      t.methods.map fun method => (method.visitBody (f t method)).1 := fun _ => List.map_map
  rw [bodies, bodyEntries, htypes, List.flatMap_map, List.map_flatMap]
  refine List.flatMap_congr fun t _ => ?_
  rw [hmethods, List.filterMap_map, List.map_filterMap]
  refine List.filterMap_congr fun method _ => ?_
  rw [Function.comp_apply, MethodDef.body_visitBody, Option.map_map]
  rfl

/-- **The answers of a visit** come in the same order. -/
theorem answers_visitBodies :
    (m.visitBodies f).2 = m.bodyEntries.map fun entry => (f entry.1 entry.2.1 entry.2.2).2 := by
  have hanswers : ∀ t : TypeDef, (t.visitBodies (f t)).2 =
      t.methods.flatMap fun method => (method.visitBody (f t method)).2 :=
    fun _ => List.flatMap_map _ _ _
  have hall : (m.visitBodies f).2 = m.types.flatMap fun t => (t.visitBodies (f t)).2 :=
    List.flatMap_map _ _ _
  rw [hall, bodyEntries, List.map_flatMap]
  refine List.flatMap_congr fun t _ => ?_
  rw [hanswers, List.map_filterMap, List.filterMap_eq_flatMap_toList]
  refine List.flatMap_congr fun method _ => ?_
  rw [MethodDef.answers_visitBody, Option.map_map]
  rfl

end Module

end Visit

/-! ### Faults -/

/-- **A reader finds no fault in a module** exactly if all its bodies are valid.  It stops at the
first one that is not, and a body without fault is a valid one. -/
theorem Image.fault?_eq_none_iff {m : Module} : Image.fault? m = none ↔ m.ArenasValid := by
  have hfault : Image.fault? m = none ↔
      ∀ entry ∈ m.methods, ∀ b ∈ entry.2.body, b.arenaFault? = none := by
    rw [Image.fault?, List.findSome?_eq_none_iff]
    refine forall₂_congr fun entry _ => ?_
    obtain ⟨t, method⟩ := entry
    cases hbody : method.body <;> simp [hbody]
  rw [hfault, Module.ArenasValid]
  constructor
  · intro h b hb
    obtain ⟨t, ht, method, hmethod, hbody⟩ := Module.mem_bodies_iff.mp hb
    have hentry : (t, method) ∈ m.methods :=
      List.mem_flatMap.mpr ⟨t, ht, List.mem_map.mpr ⟨method, hmethod, rfl⟩⟩
    exact MethodBody.arenaFault?_eq_none_iff.mp (h (t, method) hentry b hbody)
  · rintro h ⟨t, method⟩ hentry b hb
    obtain ⟨t', ht, hmethod⟩ := List.mem_flatMap.mp hentry
    obtain ⟨method', hmem, heq⟩ := List.mem_map.mp hmethod
    obtain ⟨rfl, rfl⟩ := Prod.mk.inj heq
    exact MethodBody.arenaFault?_eq_none_iff.mpr
      (h b (Module.mem_bodies_iff.mpr ⟨t', ht, method', hmem, hb⟩))

/-- What a reader lets through is the module of a document, and has no fault.  A reader first
decodes and then looks for faults, so both are known of what it returns. -/
theorem Image.exists_document_of_parse {bytes : Bytes} {m : Module} (h : parse bytes = .ok m) :
    (∃ value document, decodeDocument documentRoom value = some document ∧ document.module = m) ∧
      fault? m = none := by
  unfold parse at h
  split at h
  · exact absurd h (by simp)
  · next document hdocument =>
      obtain ⟨value, -, hvalue⟩ := Option.bind_eq_some_iff.mp hdocument
      split at h
      · exact absurd h (by simp)
      · split at h
        · exact absurd h (by simp)
        · split at h
          · exact absurd h (by simp)
          · next hnone =>
              obtain rfl := Except.ok.inj h
              exact ⟨⟨value, document, hvalue, rfl⟩, hnone⟩

/-- **An image with an invalid body is not read.** -/
theorem Image.arenasValid_of_parse {bytes : Bytes} {m : Module} (h : parse bytes = .ok m) :
    m.ArenasValid :=
  fault?_eq_none_iff.mp (exists_document_of_parse h).2

/-! ### Repair of a module -/

instance : Zero RepairReport := ⟨{}⟩

instance : Std.Associative (α := RepairReport) (· + ·) where
  assoc r s t := by
    change RepairReport.add (RepairReport.add r s) t = RepairReport.add r (RepairReport.add s t)
    simp only [RepairReport.add, Nat.add_assoc]

instance : Std.LawfulIdentity (α := RepairReport) (· + ·) 0 where
  left_id r := by
    change RepairReport.add {} r = r
    simp only [RepairReport.add, Nat.zero_add]
  right_id r := by
    change RepairReport.add r {} = r
    simp only [RepairReport.add, Nat.add_zero]

namespace Module

variable (m : Module)

/-- **Every body of a module is repaired,** and laid out if it needed repair. -/
theorem bodies_repair : m.repair.1.bodies = m.bodies.map fun b => b.repairAndLayOut.1 := by
  rw [repair, bodies_visitBodies, bodies_eq_map_entries, List.map_map]
  rfl

/-- The reports of a repair are those of the bodies, in their order. -/
theorem reports_repair :
    m.repair.2.map (·.report) = m.bodies.map fun b => b.repairAndLayOut.2 := by
  rw [repair, answers_visitBodies, bodies_eq_map_entries, List.map_map, List.map_map]
  rfl

end Module

/-- **The report on a module** counts its bodies and adds up their reports.  Addition of reports is
associative and has a zero, so the sum over a module is the sum over the list. -/
theorem ModuleRepair.ofBodies_repair (m : Module) :
    ModuleRepair.ofBodies m.repair.2 =
      { checked := m.bodies.length
        repaired := m.bodies.countP fun b => b.repairAndLayOut.2.changed
        totals := (m.bodies.map fun b => b.repairAndLayOut.2).sum } := by
  have hreports := m.reports_repair
  have hchecked : m.repair.2.length = m.bodies.length := by
    simpa using congrArg List.length hreports
  have hrepaired : m.repair.2.countP (fun r => r.report.changed) =
      m.bodies.countP fun b => b.repairAndLayOut.2.changed := by
    simpa [List.countP_map, Function.comp_def] using
      congrArg (List.countP RepairReport.changed) hreports
  rw [ofBodies, hchecked, hrepaired, hreports, List.sum_eq_foldl]
  rfl

/-! ### Built-in stages -/

/-- **What the built-in stages make of a body:** its locals get other types, triples are folded, and
padding is removed.  The number counts the bytes by which folding made the code longer. -/
inductive Reworked (b : MethodBody) : Nat → MethodBody → Prop
  | same : Reworked b 0 b
  | retyped {n : Nat} {c : MethodBody} (h : Reworked b n c) (f : String → String) :
      Reworked b n (c.mapReferences f)
  | folded {n : Nat} {c : MethodBody} (h : Reworked b n c) {site : FoldSite}
      (hsite : c.foldSite? = some site) :
      Reworked b (n + c.foldGrowth site) (c.foldSite site)
  | unpadded {n : Nat} {c : MethodBody} (h : Reworked b n c) : Reworked b n c.removeNops.1

/-- Two stages in a row; the bytes that they add are added. -/
theorem Reworked.trans {b c d : MethodBody} {n n' : Nat} (h : Reworked b n c)
    (h' : Reworked c n' d) : Reworked b (n + n') d := by
  induction h' with
  | same => exact h
  | retyped _ f ih => exact ih.retyped f
  | folded _ hsite ih => exact (Nat.add_assoc _ _ _) ▸ ih.folded hsite
  | unpadded _ ih => exact ih.unpadded

/-- Reworking only takes identities off the sequence.  No instruction comes back and none changes
place with another. -/
theorem Reworked.thins {b c : MethodBody} {n : Nat} (h : Reworked b n c) : b.Thins c := by
  induction h with
  | same => exact MethodBody.Thins.refl b
  | retyped _ f ih => exact ⟨ih.order, ih.slots⟩
  | @folded n c _ site _ ih => exact ih.trans (MethodBody.thins_foldSite c site)
  | @unpadded n c _ ih => exact ih.trans (MethodBody.thins_removeNops c)

/-- Folding is a sequence of folds, each at the first triple that is found. -/
theorem reworked_foldLiterals (b : MethodBody) : ∃ n, Reworked b n b.foldLiterals.1 := by
  induction b using MethodBody.foldLiterals.induct with
  | case1 b hnone =>
      rw [MethodBody.foldLiterals_of_none hnone]
      exact ⟨0, .same⟩
  | case2 b site hsome folded count hfolded ih =>
      obtain ⟨n, hrest⟩ := ih
      rw [MethodBody.foldLiterals_of_some hsome]
      exact ⟨_, (Reworked.same.folded hsome).trans hrest⟩

section Builtin

variable {σ : Type}

/-- References are replaced in each body by itself. -/
theorem Module.bodies_mapReferences (f : String → String) (m : Module) :
    (m.mapReferences f).bodies = m.bodies.map (·.mapReferences f) := by
  rw [bodies, bodies, mapReferences, List.flatMap_map, List.map_flatMap]
  refine List.flatMap_congr fun t _ => ?_
  rw [TypeDef.mapReferences, List.filterMap_map, List.map_filterMap]
  rfl

/-- New names leave the bodies alone. -/
theorem Renaming.bodies_apply (r : Renaming) (m : Module) : (r.apply m).bodies = m.bodies := by
  have hmethod : ∀ location method, (r.applyToMethod location method).body = method.body := by
    intro location method
    rw [applyToMethod]
    split <;> rfl
  have htype : ∀ index t, (r.applyToType index t).methods.filterMap (·.body) =
      t.methods.filterMap (·.body) := by
    intro index t
    have hmethods := map_mapIdx_eq (fun n => hmethod ⟨index, n⟩) t.methods
    have hbodies := congrArg (List.filterMap id) hmethods
    rw [List.filterMap_map, List.filterMap_map] at hbodies
    exact hbodies
  have htypes := map_mapIdx_eq (f := r.applyToType)
    (g := fun t => t.methods.filterMap (·.body)) htype m.types
  exact congrArg List.flatten htypes

/-- **What renaming does to the bodies:** new names of types in their locals, and nothing else. -/
theorem Renaming.bodies_run (r : Renaming) (m : Module) :
    (r.run m).bodies = m.bodies.map (·.mapReferences (r.substitution m)) := by
  rw [run, Module.bodies_mapReferences, bodies_apply]

/-- **A stage reworks every body,** one by one and in order. -/
def ReworksBodies (m m' : Module) : Prop :=
  List.Forall₂ (fun b c => ∃ n, Reworked b n c) m.bodies m'.bodies

/-- Renaming reworks bodies, also when it fails and leaves them as they were, -/
theorem reworksBodies_rename [DrawSource σ] (c : StageContext σ) :
    ReworksBodies c.module (renameModule c).context.module := by
  rw [ReworksBodies, renameModule]
  dsimp only
  split
  · exact List.forall₂_same.mpr fun b _ => ⟨0, .same⟩
  · next fresh names _ =>
      dsimp only
      rw [Renaming.bodies_run, List.forall₂_map_right_iff]
      exact List.forall₂_same.mpr fun b _ => ⟨0, Reworked.same.retyped _⟩

/-- folding reworks those of methods that may be changed, -/
theorem reworksBodies_fold (c : StageContext σ) :
    ReworksBodies c.module (foldModule c).context.module := by
  have hmodule : (foldModule c).context.module =
      (c.module.visitBodies (foldEligible c.limits c.module)).1 := rfl
  rw [ReworksBodies, hmodule, Module.bodies_visitBodies, Module.bodies_eq_map_entries,
    List.forall₂_map_left_iff, List.forall₂_map_right_iff]
  refine List.forall₂_same.mpr fun entry _ => ?_
  rw [foldEligible]
  split
  · exact reworked_foldLiterals entry.2.2
  · exact ⟨0, .same⟩

/-- and removal of padding reworks all. -/
theorem reworksBodies_removePadding (c : StageContext σ) :
    ReworksBodies c.module (removePadding c).context.module := by
  have hmodule : (removePadding c).context.module =
      (c.module.visitBodies fun _ _ body => body.removeNops).1 := rfl
  rw [ReworksBodies, hmodule, Module.bodies_visitBodies, Module.bodies_eq_map_entries,
    List.forall₂_map_left_iff, List.forall₂_map_right_iff]
  exact List.forall₂_same.mpr fun entry _ => ⟨0, Reworked.same.unpadded⟩

/-- **Each built-in stage reworks every body.** -/
theorem reworksBodies_of_builtin [DrawSource σ] {stage : Stage σ} (h : stage ∈ builtinStages)
    (c : StageContext σ) : ReworksBodies c.module (stage.apply c).context.module := by
  simp only [builtinStages, List.mem_cons, List.not_mem_nil, or_false] at h
  rcases h with rfl | rfl | rfl
  · exact reworksBodies_rename c
  · exact reworksBodies_fold c
  · exact reworksBodies_removePadding c

end Builtin

/-! ### Stages one after the other -/

section Stages

variable {σ : Type}

/-- Stages run one after the other, each on what the one before it left. -/
theorem context_runStages_cons (stage : Stage σ) (stages : List (Stage σ)) (c : StageContext σ) :
    (runStages (stage :: stages) c).context =
      (runStages stages (stage.apply c).context).context := by
  rw [runStages]
  split <;> rfl

/-- What two stages make of a body, one after the other, is reworked as well. -/
theorem ReworksBodies.trans {m m' m'' : Module} (h : ReworksBodies m m')
    (h' : ReworksBodies m' m'') : ReworksBodies m m'' := by
  unfold ReworksBodies at h h' ⊢
  generalize m.bodies = bs, m'.bodies = cs, m''.bodies = ds at h h' ⊢
  induction h generalizing ds with
  | nil =>
      obtain rfl := List.forall₂_nil_left_iff.mp h'
      exact .nil
  | cons hbc _ ih =>
      obtain ⟨n, hbc⟩ := hbc
      obtain ⟨d, ds, ⟨n', hcd⟩, hrest, rfl⟩ := List.forall₂_cons_left_iff.mp h'
      exact .cons ⟨n + n', hbc.trans hcd⟩ (ih ds hrest)

/-- **Built-in stages rework every body,** whichever of them run and in whichever order.  By
induction on the stages. -/
theorem reworksBodies_runStages [DrawSource σ] {stages : List (Stage σ)}
    (h : ∀ stage ∈ stages, stage ∈ builtinStages) (c : StageContext σ) :
    ReworksBodies c.module (runStages stages c).context.module := by
  induction stages generalizing c with
  | nil => exact List.forall₂_same.mpr fun b _ => ⟨0, .same⟩
  | cons stage stages ih =>
      obtain ⟨hstage, hstages⟩ := List.forall_mem_cons.mp h
      rw [context_runStages_cons]
      exact (reworksBodies_of_builtin hstage c).trans (ih hstages _)

/-- **A stage that only edits bodies.**  Whether it fails or not, each body that it leaves comes by
edits from bodies that it found or from the body without instructions.  It may add, copy and drop
methods, and everything else is up to it. -/
def Stage.Edits (stage : Stage σ) : Prop :=
  ∀ c, ∀ b ∈ (stage.apply c).context.module.bodies,
    MethodBody.EditedFrom (· ∈ c.module.bodies) b

/-- What is reworked is edited: each way of reworking is one of the edits. -/
theorem Reworked.editedFrom {b c : MethodBody} {n : Nat} (h : Reworked b n c)
    {found : MethodBody → Prop} (hb : found b) : MethodBody.EditedFrom found c := by
  induction h with
  | same => exact .found hb
  | @retyped n c _ f ih => exact ih.edit (.setLocals (c.locals.map (·.mapReference f)))
  | @folded n c _ site _ ih =>
      exact ((ih.edit (.modify site.first fun _ => .shortestLiteral site.value)).edit
        (.remove site.second)).edit (.remove site.third)
  | unpadded _ ih => exact ih.edit .removeNops

/-- The built-in stages only edit bodies. -/
theorem edits_of_builtin [DrawSource σ] {stage : Stage σ} (h : stage ∈ builtinStages) :
    stage.Edits := by
  intro c b hb
  obtain ⟨b₀, hb₀, n, hreworked⟩ := exists_of_mem_forall₂ (reworksBodies_of_builtin h c) hb
  exact hreworked.editedFrom hb₀

/-- **Stages that edit, one after the other,** leave bodies that come by edits from the first.  By
induction on the stages; edits of edited bodies are edits of the first ones. -/
theorem runStages_edits {stages : List (Stage σ)} (h : ∀ stage ∈ stages, stage.Edits)
    (c : StageContext σ) :
    ∀ b ∈ (runStages stages c).context.module.bodies,
      MethodBody.EditedFrom (· ∈ c.module.bodies) b := by
  induction stages generalizing c with
  | nil => exact fun b hb => .found hb
  | cons stage stages ih =>
      intro b hb
      rw [context_runStages_cons] at hb
      have hlater := ih (fun s hs => h s (List.mem_cons_of_mem _ hs)) _ b hb
      exact hlater.bind fun b' hb' => h stage List.mem_cons_self c b' hb'

end Stages

end CilRepair
