import CilRepair.Proofs.TypeReferences

/-!
# What a renaming leaves alone

The stage renames types, methods and parameters and rewrites references, and it walks through the
whole module to do so.  What it may touch is decided on the module as it was: later names and
references have no say, although all tests of the stage are about names.

* `MethodDef.RenamesTo`, `TypeDef.RenamesTo`, `Module.RenamesTo` — the frame, level by level.
* `Renaming.method_renamesTo`, `Renaming.type_renamesTo` — new names and references keep to it, if
  none are dealt out to what keeps its name.
* `FreshFor.renamesTo_run` — the names that the stage deals out are such.
* `Module.isCalledByName` — methods whose callers know them by name, by a rule or by a mark.
* `rename_changes_only` — the stage, whatever names are drawn.

What a renaming does where it may do something is the matter of `rename_keeps_references` and
`generated_names_unique`.

## Design notes

The frame is a relation between a module before and one after, and says for each field either that
it stays or what becomes of it.  Names are the only fields with a condition, `free`, and the
condition is a parameter: at each level it is instantiated with a test on the module before.

The substitution of references is the parameter `f`.  That it replaces full names of renamed types
only is the last clause of the frame for modules.  A failed renaming is the case `f = id`, for which
the frame is reflexive, so the main theorem does not distinguish the outcomes.
-/

namespace CilRepair

/-! ### The frame -/

/-- **A method, and what a renaming makes of it,** if each reference becomes its image under `f`.
The names of the method and of its parameters stay unless the method is free to be renamed. -/
structure MethodDef.RenamesTo (f : String → String) (free : Bool) (m m' : MethodDef) : Prop where
  token : m'.token = m.token
  access : m'.access = m.access
  modifiers : m'.modifiers = m.modifiers
  names : free = false → m'.names = m.names
  result : m'.result = m.result.mapName f
  params : m'.params.map (·.sig) = m.params.map (·.sig.mapName f)
  attributes : m'.attributes = m.attributes.map (·.mapName f)
  body : m'.body = m.body.map (·.mapReferences f)

/-- **A type, and what a renaming makes of it.**  Its methods stay in their order, and each is free
to be renamed or not. -/
structure TypeDef.RenamesTo (f : String → String) (free : Bool) (freeMethod : MethodDef → Bool)
    (t t' : TypeDef) : Prop where
  token : t'.token = t.token
  space : t'.space = t.space
  flags : t'.flags = t.flags
  name : free = false → t'.name = t.name
  base : t'.base = t.base.map f
  attributes : t'.attributes = t.attributes.map (·.mapName f)
  methods : List.Forall₂ (fun m m' => m.RenamesTo f (freeMethod m) m') t.methods t'.methods

/-- **A module, and what a renaming makes of it.**  What may be renamed is judged on the module as
it was.  A reference becomes another just if it was the full name of such a type, and then it is the
full name of that type afterwards. -/
structure Module.RenamesTo (limits : Thresholds) (f : String → String) (m m' : Module) : Prop where
  name : m'.name = m.name
  entryPoint : m'.entryPoint = m.entryPoint
  types : List.Forall₂ (fun t t' => t.RenamesTo f (m.isRenamable t)
    (fun method => !t.isFramework && limits.isEligible m t method) t') m.types m'.types
  references : ∀ reference, f reference ≠ reference → ∃ t t', (t, t') ∈ m.types.zip m'.types ∧
    m.isRenamable t = true ∧ reference = t.fullName ∧ f reference = t'.fullName

/-! ### Nothing renamed -/

theorem TypeSig.mapName_id (sig : TypeSig) : sig.mapName id = sig := by
  induction sig with
  | array element ih => exact congrArg array ih
  | _ => rfl

theorem MethodBody.mapReferences_id (b : MethodBody) : b.mapReferences id = b := by
  have hlocals : (·.mapReference id) = (id : LocalVar → LocalVar) :=
    funext fun v => congrArg (LocalVar.mk v.name) v.sig.mapName_id
  rw [mapReferences, hlocals, List.map_id]

theorem map_mapName_id (attributes : List CustomAttribute) :
    attributes.map (·.mapName id) = attributes := List.map_id attributes

/-- A method that stays as it is keeps to the frame, -/
theorem MethodDef.RenamesTo.refl (free : Bool) (m : MethodDef) : m.RenamesTo id free m where
  token := rfl
  access := rfl
  modifiers := rfl
  names _ := rfl
  result := m.result.mapName_id.symm
  params := List.map_congr_left fun p _ => p.sig.mapName_id.symm
  attributes := (map_mapName_id m.attributes).symm
  body := by
    have hbodies : (·.mapReferences id) = (id : MethodBody → MethodBody) :=
      funext MethodBody.mapReferences_id
    rw [hbodies, Option.map_id, id]

/-- so does a type, -/
theorem TypeDef.RenamesTo.refl (free : Bool) (freeMethod : MethodDef → Bool) (t : TypeDef) :
    t.RenamesTo id free freeMethod t where
  token := rfl
  space := rfl
  flags := rfl
  name _ := rfl
  base := (Option.map_id_apply).symm
  attributes := (map_mapName_id t.attributes).symm
  methods := List.forall₂_same.mpr fun m _ => MethodDef.RenamesTo.refl (freeMethod m) m

/-- and so does a module. -/
theorem Module.RenamesTo.refl (limits : Thresholds) (m : Module) : m.RenamesTo limits id m where
  name := rfl
  entryPoint := rfl
  types := List.forall₂_same.mpr fun t _ => TypeDef.RenamesTo.refl _ _ t
  references _ hchanged := absurd rfl hchanged

/-! ### New names and references -/

namespace Renaming

variable (r : Renaming) (f : String → String)

/-- **New names and references for a method.**  Without a new name for it, and it has none if it is
not free, only references change. -/
theorem method_renamesTo {location : MethodLocation} {free : Bool}
    (hfree : free = false → r.methods.lookup location = none) (m : MethodDef) :
    m.RenamesTo f free ((r.applyToMethod location m).mapReferences f) := by
  have hsigs : ∀ params : List Param, (params.map (·.mapReference f)).map (·.sig) =
      (params.map (·.sig)).map (·.mapName f) := by
    intro params
    rw [List.map_map, List.map_map]
    rfl
  refine ⟨?_, ?_, ?_, fun hfixed => ?_, ?_, ?_, ?_, ?_⟩
  case refine_4 => rw [MethodDef.names_mapReferences, applyToMethod, hfree hfixed]
  case refine_6 =>
    have hparams : (r.applyToMethod location m).params.map (·.sig) = m.params.map (·.sig) := by
      rw [applyToMethod]
      split
      · exact map_sig_renameParams _ _
      · rfl
    rw [MethodDef.mapReferences, hsigs, hparams, List.map_map]
    rfl
  all_goals
    rw [MethodDef.mapReferences, applyToMethod]
    split <;> rfl

/-- **New names and references for a type and its methods.**  Methods are compared one by one, each
with its own freedom. -/
theorem type_renamesTo {index : Nat} {t : TypeDef} {free : Bool} {freeMethod : MethodDef → Bool}
    (hfree : free = false → r.types.lookup index = none)
    (hmethods : ∀ n m, t.methods[n]? = some m → freeMethod m = false →
      r.methods.lookup ⟨index, n⟩ = none) :
    t.RenamesTo f free freeMethod ((r.applyToType index t).mapReferences f) where
  token := rfl
  space := rfl
  flags := rfl
  name hfixed := by
    change (r.types.lookup index).getD t.name = t.name
    rw [hfree hfixed, Option.getD_none]
  base := rfl
  attributes := rfl
  methods := by
    refine List.forall₂_map_right_iff.mpr ?_
    exact forall₂_mapIdx fun n m hm => r.method_renamesTo f (hmethods n m hm) m

end Renaming

/-! ### The stage -/

section Fresh

variable {σ : Type} {c : StageContext σ} {names : List String}

/-- A method that is not free was dealt no name. -/
theorem FreshFor.lookup_methods_of_fixed (h : FreshFor c names) {location : MethodLocation}
    {t : TypeDef} {method : MethodDef} (hat : c.module.at? location = some (t, method))
    (hfixed : (!t.isFramework && c.limits.isEligible c.module t method) = false) :
    (c.renaming names).methods.lookup location = none := by
  refine lookup_eq_none_of_notMem fun hkey => ?_
  rw [h.fst_methods] at hkey
  have hrenamable := (List.mem_filter.mp hkey).2
  rw [isRenamableAt, hat, Option.any_some] at hrenamable
  exact absurd (hfixed.symm.trans hrenamable) (by decide)

/-- **A renaming with fresh names keeps to the frame.**  Types and methods are compared at their
places, each with what was dealt for it or with itself. -/
theorem FreshFor.renamesTo_run (h : FreshFor c names) :
    c.module.RenamesTo c.limits ((c.renaming names).substitution c.module)
      ((c.renaming names).run c.module) where
  name := rfl
  entryPoint := rfl
  types := by
    refine List.forall₂_map_right_iff.mpr (forall₂_mapIdx fun index t ht => ?_)
    refine Renaming.type_renamesTo _ _ (h.lookup_types_of_fixed ht) fun n method hmethod => ?_
    exact h.lookup_methods_of_fixed (Module.at?_eq_some_iff.mpr ⟨ht, hmethod⟩)
  references reference hchanged := by
    -- The substitution changes what it finds, and what it finds is an entry of a renamed type.
    rw [Renaming.substitution] at hchanged ⊢
    cases hfound : ((c.renaming names).fullNames c.module).reverse.lookup reference with
    | none => exact absurd (by rw [hfound, Option.getD_none]) hchanged
    | some new =>
        obtain ⟨index, name, t, hmem, ht, heq⟩ :=
          Renaming.mem_fullNames_iff.mp (List.mem_reverse.mp (mem_of_lookup hfound))
        obtain ⟨rfl, rfl⟩ := Prod.mk.inj heq
        obtain ⟨u, hu, hrenamable⟩ := exists_of_mem_renamableTypes (List.of_mem_zip hmem).1
        obtain rfl := Option.some.inj (ht.symm.trans hu)
        refine ⟨t, ((c.renaming names).applyToType index t).mapReferences
          ((c.renaming names).substitution c.module), ?_, hrenamable, rfl, ?_⟩
        · refine List.mem_iff_getElem?.mpr ⟨index, List.getElem?_zip_eq_some.mpr ⟨ht, ?_⟩⟩
          rw [Renaming.getElem?_types_run, ht, Option.map_some]
        · rw [Option.getD_some]
          change _ = TypeDef.fullName { t with name := (c.renaming names).typeName index t }
          rw [Renaming.typeName, h.lookup_types hmem, Option.getD_some]

end Fresh

/-! ### What this means for a method -/

/-- Each method is found again at its place. -/
theorem Module.RenamesTo.at? {limits : Thresholds} {f : String → String} {m m' : Module}
    (h : m.RenamesTo limits f m') {location : MethodLocation} {t : TypeDef} {method : MethodDef}
    (hat : m.at? location = some (t, method)) :
    ∃ t' method', m'.at? location = some (t', method') ∧
      method.RenamesTo f (!t.isFramework && limits.isEligible m t method) method' := by
  obtain ⟨ht, hmethod⟩ := Module.at?_eq_some_iff.mp hat
  obtain ⟨t', ht', htype⟩ := exists_getElem?_of_forall₂ h.types ht
  obtain ⟨method', hmethod', hrenames⟩ := exists_getElem?_of_forall₂ htype.methods hmethod
  exact ⟨t', method', Module.at?_eq_some_iff.mpr ⟨ht', hmethod'⟩, hrenames⟩

/-- The body without its locals: instructions, handlers and the declared depth. -/
def MethodBody.withoutLocals (b : MethodBody) : MethodBody := { b with locals := [] }

/-- Locals have signatures, and those refer to types; the rest of a body does not. -/
theorem MethodDef.RenamesTo.withoutLocals {f : String → String} {free : Bool} {m m' : MethodDef}
    (h : m.RenamesTo f free m') :
    m'.body.map (·.withoutLocals) = m.body.map (·.withoutLocals) := by
  rw [h.body, Option.map_map]
  rfl

/-- **The method is called by its name,** or by a rule or a mark that tools and runtimes go by. -/
def Module.isCalledByName (m : Module) (t : TypeDef) (method : MethodDef) : Bool :=
  isLifecycleCallback method.name || method.isConstructor || method.isSpecialName
    || method.isVirtual || method.isAbstract || m.isEntryPoint t method

/-- Such a method may not be changed, so it is not free to be renamed. -/
theorem Module.isEligible_of_isCalledByName {m : Module} {t : TypeDef} {method : MethodDef}
    (h : m.isCalledByName t method = true) (limits : Thresholds) :
    limits.isEligible m t method = false := by
  rw [Thresholds.isEligible, Bool.not_eq_false']
  simp only [isCalledByName, Bool.or_eq_true] at h ⊢
  tauto

section Stage

variable {σ : Type} [DrawSource σ]

/-- The settings of the run stay as they are. -/
theorem settings_renameWithin (patience : Nat) (c : StageContext σ) :
    (renameWithin patience c).context.limits = c.limits ∧
      (renameWithin patience c).context.budget = c.budget ∧
        (renameWithin patience c).context.offsetShift = c.offsetShift := by
  rw [renameWithin]
  split <;> exact ⟨rfl, rfl, rfl⟩

/-- **Renaming changes only what it may.**  Whatever names are drawn, and also if they run out, the
module keeps to the frame: names change only where they were free to, judged on the module before,
and references only where they were full names of renamed types.  So every method is found again at
its place with its instructions, handlers and declared depth, and a method that is called by name
keeps its name and those of its parameters. -/
theorem rename_changes_only (patience : Nat) (c : StageContext σ) :
    let after := (renameWithin patience c).context
    (after.limits = c.limits ∧ after.budget = c.budget ∧ after.offsetShift = c.offsetShift) ∧
      (∃ f, c.module.RenamesTo c.limits f after.module) ∧
        ∀ location t method, c.module.at? location = some (t, method) →
          ∃ t' method', after.module.at? location = some (t', method') ∧
            method'.body.map (·.withoutLocals) = method.body.map (·.withoutLocals) ∧
              (c.module.isCalledByName t method = true → method'.names = method.names) := by
  intro after
  have hframe : ∃ f, c.module.RenamesTo c.limits f after.module := by
    rcases renameWithin_cases patience c with ⟨-, hmodule⟩ | ⟨fresh, hfresh, -, hmodule⟩ <;>
      rw [hmodule]
    · exact ⟨id, Module.RenamesTo.refl c.limits c.module⟩
    · exact ⟨_, hfresh.renamesTo_run⟩
  refine ⟨?_, hframe, fun location t method hat => ?_⟩
  · exact settings_renameWithin patience c
  · obtain ⟨f, hrenames⟩ := hframe
    obtain ⟨t', method', hat', hmethod⟩ := hrenames.at? hat
    refine ⟨t', method', hat', hmethod.withoutLocals, fun hcalled => hmethod.names ?_⟩
    rw [c.module.isEligible_of_isCalledByName hcalled, Bool.and_false]

end Stage

/-- The context of a run whose module has a type with a method that may be renamed, one that may
not, and a reference to the type itself. -/
def describedContext : StageContext ChaCha :=
  PipelineConfig.context { source := .ofSeed 3 }
    { name := "Game.dll"
      types :=
        [TypeDef.new ⟨1⟩ "" "<Module>",
          { TypeDef.new ⟨2⟩ "Game" "Helper" with
            methods :=
              [{ MethodDef.new ⟨3⟩ "Compute" with
                params := [⟨"other", .named "Game.Helper"⟩], body := some addingBody },
              { MethodDef.new ⟨4⟩ "Describe" with
                modifiers := ⟨0x40⟩, params := [⟨"amount", .i4⟩],
                body := some addingBody }] }]
      entryPoint := none }

/-- The method that may be renamed gets another name, the constructor keeps its own, and the
reference to the renamed type is its new full name. -/
theorem describedContext_keeps_described :
    let after := (renameWithin NameRegistry.defaultPatience describedContext).context.module
    (after.fullNames ≠ describedContext.module.fullNames ∧
      (after.at? ⟨1, 0⟩).map (·.2.names) ≠ some ["Compute", "other"]) ∧
        ∃ t' method', after.at? ⟨1, 1⟩ = some (t', method') ∧
          method'.body.map (·.withoutLocals) = some addingBody.withoutLocals ∧
            method'.names = ["Describe", "amount"] := by
  obtain ⟨-, -, hmethods⟩ := rename_changes_only NameRegistry.defaultPatience describedContext
  obtain ⟨t', method', hat', hbody, hnames⟩ := hmethods ⟨1, 1⟩ _ _ rfl
  exact ⟨by decide +kernel, t', method', hat', hbody, hnames (by decide +kernel)⟩

end CilRepair
