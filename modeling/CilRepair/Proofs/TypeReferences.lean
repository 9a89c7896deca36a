import CilRepair.Proofs.NewNames
import CilRepair.Proofs.ReferencePlaces

/-!
# References under a renaming

A renaming gives some types new names, and every reference that was the old full name of a type
becomes the new one.  This is a substitution on texts, and texts do not know which type they mean;
that it does what it should rests on which full names can be equal before and after.

* `Renaming.newFullName`, `getElem?_fullNames_run` — the full names after a renaming.
* `FreshFor.newFullName_injective` — different types get different full names.
* `FreshFor.substitution_fullName` — an old full name becomes the new one of the same type.
* `rename_keeps_references` — both for the stage: references stay attached to their types.
* `rename_captures_only_drawn` — a reference to a type of another module stays as it is, and it
  comes to name a type of this module only if its last part was drawn by chance.
* `derivedContext_captures` — such a draw.

## Design notes

References and full names are compared as texts, as the code does, and never resolved to types.  The
whole argument is therefore about equality of texts: a full name is cut at its last point, and since
neither a simple name of the module nor a drawn name has a point in it, equal full names have equal
namespaces and equal simple names.

The two hypotheses are needed for that and are stated of the module before the renaming.  Simple
names without a point make full names readable, and distinct full names make a reference mean one
type.  Nothing is assumed of the draws, of the source or of how long it is searched.

That references are not reserved is not excluded by a hypothesis, since it is what the code does.
`rename_captures_only_drawn` says what can come of it and `derivedContext_captures` that it can.
-/

namespace CilRepair

/-! ### Full names after a renaming -/

namespace Renaming

variable (r : Renaming) (m : Module)

/-- **The full name of a type after a renaming.** -/
def newFullName (index : Nat) (t : TypeDef) : String :=
  TypeDef.fullName { t with name := r.typeName index t }

/-- The types keep their order, each with its new full name. -/
theorem getElem?_fullNames_run (index : Nat) :
    (r.run m).fullNames[index]? = m.types[index]?.map (r.newFullName index) := by
  rw [Module.fullNames, List.getElem?_map, getElem?_types_run, Option.map_map]
  rfl

theorem length_types_run : (r.run m).types.length = m.types.length := by
  rw [run, Module.mapReferences, List.length_map, apply, List.length_mapIdx]

end Renaming

section Fresh

variable {σ : Type} {c : StageContext σ} {names : List String}

theorem mem_renamableTypes {m : Module} {index : Nat} {t : TypeDef} (ht : m.types[index]? = some t)
    (hrenamable : m.isRenamable t = true) : index ∈ renamableTypes m :=
  List.mem_filterMap.mpr ⟨(t, index), List.mk_mem_zipIdx_iff_getElem?.mpr ht, if_pos hrenamable⟩

/-- A type that may not be renamed is dealt no name. -/
theorem FreshFor.lookup_types_of_fixed (h : FreshFor c names) {index : Nat} {t : TypeDef}
    (ht : c.module.types[index]? = some t) (hfixed : c.module.isRenamable t = false) :
    (c.renaming names).types.lookup index = none := by
  refine h.lookup_types_of_notMem fun hindex => ?_
  obtain ⟨u, hu, hrenamable⟩ := exists_of_mem_renamableTypes hindex
  obtain rfl := Option.some.inj (ht.symm.trans hu)
  exact absurd (hfixed.symm.trans hrenamable) (by decide)

/-- **A type keeps its name or gets one of the names,** and the latter just if it may be renamed. -/
theorem FreshFor.typeName_cases (h : FreshFor c names) {index : Nat} {t : TypeDef}
    (ht : c.module.types[index]? = some t) :
    c.module.isRenamable t = false ∧
        (c.renaming names).typeName index t = t.name ∨
      c.module.isRenamable t = true ∧
        ∃ name, (index, name) ∈ (c.renaming names).types ∧ name ∈ names ∧
          (c.renaming names).typeName index t = name := by
  cases hrenamable : c.module.isRenamable t with
  | true =>
      obtain ⟨name, hmem⟩ := h.exists_mem_types (mem_renamableTypes ht hrenamable)
      refine .inr ⟨rfl, name, hmem, (List.of_mem_zip hmem).2, ?_⟩
      rw [Renaming.typeName, h.lookup_types hmem, Option.getD_some]
  | false =>
      refine .inl ⟨rfl, ?_⟩
      rw [Renaming.typeName, h.lookup_types_of_fixed ht hrenamable, Option.getD_none]

theorem name_mem_identifiers {m : Module} {index : Nat} {t : TypeDef}
    (ht : m.types[index]? = some t) : t.name ∈ m.identifiers :=
  List.mem_flatMap.mpr ⟨t, List.mem_of_getElem? ht, List.mem_cons_self⟩

/-- No name of a type has a point in it afterwards, -/
theorem FreshFor.typeName_point_notMem (h : FreshFor c names)
    (hsimple : ∀ t ∈ c.module.types, '.' ∉ t.name.toList) {index : Nat} {t : TypeDef}
    (ht : c.module.types[index]? = some t) :
    '.' ∉ ((c.renaming names).typeName index t).toList := by
  rcases h.typeName_cases ht with ⟨-, hname⟩ | ⟨-, name, -, hmem, hname⟩
  · rw [hname]
    exact hsimple t (List.mem_of_getElem? ht)
  · rw [hname]
    exact (h.shape name hmem).point_notMem

/-- so that a full name still ends in it. -/
theorem FreshFor.shortName_newFullName (h : FreshFor c names)
    (hsimple : ∀ t ∈ c.module.types, '.' ∉ t.name.toList) {index : Nat} {t : TypeDef}
    (ht : c.module.types[index]? = some t) :
    CustomAttribute.shortName ⟨(c.renaming names).newFullName index t⟩ =
      (c.renaming names).typeName index t :=
  shortName_fullName (t := { t with name := (c.renaming names).typeName index t })
    (h.typeName_point_notMem hsimple ht)

/-- Types with one full name are one type, if full names are distinct. -/
theorem Module.index_eq_of_fullName_eq {m : Module} (hdistinct : m.fullNames.Nodup) {i j : Nat}
    {t u : TypeDef} (ht : m.types[i]? = some t) (hu : m.types[j]? = some u)
    (heq : t.fullName = u.fullName) : i = j := by
  have hleft : m.fullNames[i]? = some t.fullName := by rw [fullNames, List.getElem?_map, ht]; rfl
  have hright : m.fullNames[j]? = some u.fullName := by rw [fullNames, List.getElem?_map, hu]; rfl
  obtain ⟨hlt, -⟩ := List.getElem?_eq_some_iff.mp hleft
  exact (List.getElem?_inj hlt hdistinct).mp (hleft.trans (heq ▸ hright.symm))

/-- **Different types get different full names.**  If both were renamed, their names were dealt to
both; if one was, its name is none that the module had; and if none was, they are equal as
before. -/
theorem FreshFor.newFullName_injective (h : FreshFor c names)
    (hsimple : ∀ t ∈ c.module.types, '.' ∉ t.name.toList) (hdistinct : c.module.fullNames.Nodup)
    {i j : Nat} {t u : TypeDef} (ht : c.module.types[i]? = some t)
    (hu : c.module.types[j]? = some u)
    (heq : (c.renaming names).newFullName i t = (c.renaming names).newFullName j u) : i = j := by
  -- Full names end in the names, which are old or new; an old one is never a new one.
  have hname : (c.renaming names).typeName i t = (c.renaming names).typeName j u := by
    rw [← h.shortName_newFullName hsimple ht, ← h.shortName_newFullName hsimple hu, heq]
  have hknown : ∀ {index : Nat} {t : TypeDef}, c.module.types[index]? = some t →
      ∀ name ∈ names, t.name ≠ name := by
    rintro index t ht name hfresh rfl
    exact h.unknown _ hfresh (name_mem_identifiers ht)
  rcases h.typeName_cases ht with ⟨-, hold⟩ | ⟨-, name, hmem, hfresh, hnew⟩ <;>
    rcases h.typeName_cases hu with ⟨-, hold'⟩ | ⟨-, name', hmem', hfresh', hnew'⟩
  · rw [Renaming.newFullName, Renaming.newFullName, hold, hold'] at heq
    exact c.module.index_eq_of_fullName_eq hdistinct ht hu heq
  · rw [hold, hnew'] at hname
    exact absurd hname (hknown ht name' hfresh')
  · rw [hnew, hold'] at hname
    exact absurd hname.symm (hknown hu name hfresh)
  · obtain rfl : name = name' := hnew.symm.trans (hname.trans hnew')
    have hnodup : ((c.renaming names).types.map Prod.snd).Nodup :=
      h.snd_types ▸ h.nodup.sublist (List.take_sublist _ _)
    exact congrArg Prod.fst (List.inj_on_of_nodup_map hnodup hmem hmem' rfl)

/-- The substitution has a pair for each type that was dealt a name. -/
theorem Renaming.mem_fullNames_iff {r : Renaming} {m : Module} {entry : String × String} :
    entry ∈ r.fullNames m ↔ ∃ index name t, (index, name) ∈ r.types ∧ m.types[index]? = some t ∧
      entry = (t.fullName, TypeDef.fullName { t with name }) := by
  rw [fullNames, List.mem_filterMap]
  constructor
  · rintro ⟨⟨index, name⟩, hmem, hsome⟩
    obtain ⟨t, ht, rfl⟩ := Option.map_eq_some_iff.mp hsome
    exact ⟨index, name, t, hmem, ht, rfl⟩
  · rintro ⟨index, name, t, hmem, ht, rfl⟩
    exact ⟨(index, name), hmem, Option.map_eq_some_iff.mpr ⟨t, ht, rfl⟩⟩

/-- **The full name of a type becomes its new full name.**  The first pair for it is its own,
because no other type has that full name. -/
theorem FreshFor.substitution_fullName (h : FreshFor c names)
    (hdistinct : c.module.fullNames.Nodup) {index : Nat} {t : TypeDef}
    (ht : c.module.types[index]? = some t) :
    (c.renaming names).substitution c.module t.fullName =
      (c.renaming names).newFullName index t := by
  rcases h.typeName_cases ht with ⟨hfixed, hold⟩ | ⟨-, name, hmem, -, hnew⟩
  · rw [Renaming.newFullName, hold]
    refine substitution_of_not_renamable (fun u hu hrenamable heq => ?_) names
    obtain ⟨other, hother⟩ := List.mem_iff_getElem?.mp hu
    obtain rfl := c.module.index_eq_of_fullName_eq hdistinct hother ht heq
    obtain rfl := Option.some.inj (ht.symm.trans hother)
    exact absurd (hfixed.symm.trans hrenamable) (by decide)
  · rw [Renaming.newFullName, hnew]
    -- Types of one full name are one type, so that no other entry has this key.
    have hlookup : ((c.renaming names).fullNames c.module).reverse.lookup t.fullName =
        some (TypeDef.fullName { t with name }) := by
      refine lookup_eq_some_of_unique (List.mem_reverse.mpr ?_) fun value hvalue => ?_
      · exact Renaming.mem_fullNames_iff.mpr ⟨index, name, t, hmem, ht, rfl⟩
      · obtain ⟨other, name', u, hmem', hu, heq⟩ :=
          Renaming.mem_fullNames_iff.mp (List.mem_reverse.mp hvalue)
        obtain ⟨hsame, rfl⟩ := Prod.mk.inj heq
        obtain rfl := c.module.index_eq_of_fullName_eq hdistinct ht hu hsame
        obtain rfl := Option.some.inj (ht.symm.trans hu)
        have hone := (h.lookup_types hmem).symm.trans (h.lookup_types hmem')
        rw [Option.some.inj hone]
    rw [Renaming.substitution, hlookup, Option.getD_some]

end Fresh

/-! ### The stage -/

section Stage

variable {σ : Type} [DrawSource σ]

/-- **Renaming keeps references attached.**  Let no simple name of a type have a point in it, and
let the full names of the types be distinct.  Whatever names are drawn, full names are distinct
after a renaming, and a reference that was the full name of a type, at any place, is the full name
of the type with the same number after it. -/
theorem rename_keeps_references (patience : Nat) (c : StageContext σ)
    (hsimple : ∀ t ∈ c.module.types, '.' ∉ t.name.toList)
    (hdistinct : c.module.fullNames.Nodup) :
    (renameWithin patience c).context.module.fullNames.Nodup ∧
      ∀ (place : ReferencePlace) (index : Nat) (reference : String),
        c.module.fullNames[index]? = some reference → c.module.referenceAt? place = some reference →
          ∃ renamed, (renameWithin patience c).context.module.fullNames[index]? = some renamed ∧
            (renameWithin patience c).context.module.referenceAt? place = some renamed := by
  rcases renameWithin_cases patience c with ⟨-, hmodule⟩ | ⟨fresh, hfresh, -, hmodule⟩ <;>
    rw [hmodule]
  · exact ⟨hdistinct, fun place index reference hname hat => ⟨reference, hname, hat⟩⟩
  · constructor
    · rw [List.nodup_iff_getElem?_ne_getElem?]
      intro i j hlt hj heq
      rw [Renaming.getElem?_fullNames_run, Renaming.getElem?_fullNames_run] at heq
      rw [Module.fullNames, List.length_map, Renaming.length_types_run] at hj
      have ht := List.getElem?_eq_getElem (hlt.trans hj)
      have hu := List.getElem?_eq_getElem hj
      rw [ht, hu] at heq
      have hsame := hfresh.newFullName_injective hsimple hdistinct ht hu (Option.some.inj heq)
      exact absurd hsame (Nat.ne_of_lt hlt)
    · intro place index reference hname hat
      rw [Module.fullNames, List.getElem?_map] at hname
      obtain ⟨t, ht, rfl⟩ := Option.map_eq_some_iff.mp hname
      refine ⟨(c.renaming fresh).newFullName index t, ?_, ?_⟩
      · rw [Renaming.getElem?_fullNames_run, ht, Option.map_some]
      · rw [Renaming.referenceAt?_run, hat, Option.map_some,
          hfresh.substitution_fullName hdistinct ht]

end Stage

/-- The context of a run whose module has a type `Game.Helper`, a type that derives from it, and a
method of this one with a local of arrays of it. -/
def helperContext : StageContext ChaCha :=
  PipelineConfig.context { source := .ofSeed 5 }
    { name := "Game.dll"
      types :=
        [TypeDef.new ⟨1⟩ "" "<Module>", TypeDef.new ⟨2⟩ "Game" "Helper",
          { TypeDef.new ⟨3⟩ "Game" "FastHelper" with
            base := some "Game.Helper"
            methods :=
              [{ MethodDef.new ⟨4⟩ "Use" with
                body := some
                  { addingBody with
                    locals := [⟨none, .array (.array (.named "Game.Helper"))⟩] } }] }]
      entryPoint := none }

/-- A base type and an array of arrays still refer to the type with the same number, by its new
name. -/
theorem helperContext_keeps_references :
    let renamed := (renameWithin NameRegistry.defaultPatience helperContext).context.module
    renamed.fullNames.Nodup ∧ renamed.fullNames[1]? ≠ some "Game.Helper" ∧
      (∃ name, renamed.fullNames[1]? = some name ∧
        renamed.referenceAt? ⟨2, .base⟩ = some name) ∧
      ∃ name, renamed.fullNames[1]? = some name ∧
        renamed.referenceAt? ⟨2, .method 0 (.localVar 0)⟩ = some name := by
  have hsimple : ∀ t ∈ helperContext.module.types, '.' ∉ t.name.toList := by decide +kernel
  have hdistinct : helperContext.module.fullNames.Nodup := by decide +kernel
  obtain ⟨hnodup, hfollow⟩ :=
    rename_keeps_references NameRegistry.defaultPatience helperContext hsimple hdistinct
  refine ⟨hnodup, by decide +kernel, hfollow _ 1 "Game.Helper" (by decide +kernel) rfl,
    hfollow _ 1 "Game.Helper" (by decide +kernel) rfl⟩

section Stage

variable {σ : Type} [DrawSource σ]

/-- **A reference to another module is captured only by chance.**  Let the reference at a place be
the full name of no type of the module.  A renaming leaves it as it is, whatever names are drawn.
If it is the full name of a type afterwards, then of one that may be renamed and whose new name was
neither in use nor the name of a type, method or parameter: references are not reserved. -/
theorem rename_captures_only_drawn (patience : Nat) (c : StageContext σ) (place : ReferencePlace)
    (reference : String) (hat : c.module.referenceAt? place = some reference)
    (hexternal : reference ∉ c.module.fullNames) :
    (renameWithin patience c).context.module.referenceAt? place = some reference ∧
      (reference ∈ (renameWithin patience c).context.module.fullNames →
        ∃ t ∈ c.module.types, c.module.isRenamable t = true ∧
          ∃ name, reference = TypeDef.fullName { t with name } ∧
            LooksDrawn c.names.length name ∧ name ∉ c.names.used ∧
              name ∉ c.module.identifiers) := by
  rcases renameWithin_cases patience c with ⟨-, hmodule⟩ | ⟨fresh, hfresh, -, hmodule⟩ <;>
    rw [hmodule]
  · exact ⟨hat, fun hcaptured => absurd hcaptured hexternal⟩
  · have hold : ∀ t ∈ c.module.types, t.fullName ≠ reference := by
      rintro t ht rfl
      exact hexternal (List.mem_map_of_mem ht)
    have hstays : (c.renaming fresh).substitution c.module reference = reference :=
      substitution_of_not_renamable (fun t ht _ => hold t ht) fresh
    refine ⟨by rw [Renaming.referenceAt?_run, hat, Option.map_some, hstays], fun hcaptured => ?_⟩
    obtain ⟨index, hindex⟩ := List.mem_iff_getElem?.mp hcaptured
    rw [Renaming.getElem?_fullNames_run] at hindex
    obtain ⟨t, ht, heq⟩ := Option.map_eq_some_iff.mp hindex
    have hmem := List.mem_of_getElem? ht
    rcases hfresh.typeName_cases ht with ⟨-, hkept⟩ | ⟨hrenamable, name, -, hname, hnew⟩
    · rw [Renaming.newFullName, hkept] at heq
      exact absurd heq (hold t hmem)
    · rw [Renaming.newFullName, hnew] at heq
      exact ⟨t, hmem, hrenamable, name, heq.symm, hfresh.shape name hname,
        hfresh.unused name hname, hfresh.unknown name hname⟩

end Stage

/-- The context of a run whose module has one type, with some base type. -/
def derivedContext (base : String) : StageContext ChaCha :=
  PipelineConfig.context { source := .ofSeed 0 }
    { name := "sample"
      types := [{ TypeDef.new ⟨1⟩ "" "T" with base := some base }]
      entryPoint := none }

/-- The place of that base type. -/
def derivedBase : ReferencePlace := ⟨0, .base⟩

/-- The reference looks like a drawn name and is none of the names of the module. -/
theorem derivedContext_captured_by_drawn :
    (derivedContext "moBeNoLp").module.referenceAt? derivedBase = some "moBeNoLp" ∧
      "moBeNoLp" ∉ (derivedContext "moBeNoLp").module.fullNames ∧
      LooksDrawn 8 "moBeNoLp" ∧
      "moBeNoLp" ∉ (derivedContext "moBeNoLp").module.identifiers := by
  have hat : (derivedContext "moBeNoLp").module.referenceAt? derivedBase = some "moBeNoLp" := rfl
  have hexternal : "moBeNoLp" ∉ (derivedContext "moBeNoLp").module.fullNames := by decide
  obtain ⟨-, hdrawn⟩ := rename_captures_only_drawn NameRegistry.defaultPatience
    (derivedContext "moBeNoLp") derivedBase "moBeNoLp" hat hexternal
  obtain ⟨t, ht, -, name, heq, hshape, -, hunknown⟩ := hdrawn (by decide +kernel)
  obtain rfl := List.mem_singleton.mp ht
  obtain rfl : "moBeNoLp" = name := heq
  exact ⟨hat, hexternal, hshape, hunknown⟩

/-- **A type that derives from itself.**  The base type is from another module, its name is drawn
for the only type of this one, and now the type is its own base. -/
theorem derivedContext_captures :
    (derivedContext "moBeNoLp").module.referenceAt? derivedBase = some "moBeNoLp" ∧
      "moBeNoLp" ∉ (derivedContext "moBeNoLp").module.fullNames ∧
      (runStages [renameStage] (derivedContext "moBeNoLp")).context.module.referenceAt?
        derivedBase = some "moBeNoLp" ∧
      "moBeNoLp" ∈
        (runStages [renameStage] (derivedContext "moBeNoLp")).context.module.fullNames := by
  decide +kernel

end CilRepair
