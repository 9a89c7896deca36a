import CilRepair.Proofs.FlagText
import CilRepair.Proofs.Lists
import CilRepair.Stage.Rename

/-!
# Places of references

Where a module refers to a type: by a base type, by an attribute, or inside a signature at any depth
of arrays.  A place is an index into the module, and it makes sense in every module of the same
shape, so that what stood at a place can be compared with what stands there after a change.

* `MethodPlace`, `TypePlace`, `ReferencePlace` — the places, level by level.
* `Module.referenceAt?` — the reference at a place; `Module.mem_references_iff` — these are all.
* `Module.referenceAt?_mapReferences`, `Renaming.referenceAt?_apply` — the two halves of a renaming.
* `Module.fullNames` — what references are compared with.
* `shortName_fullName` — a full name ends in the name of its type if no name has a point in it.

## Design notes

Places are indices and do not mention names.  That is what lets a reference be followed through a
renaming, after which neither the text of the reference nor the name of its type need be what it
was.

`references` of the code is a list without places.  `mem_references_iff` says at each level that it
has what stands at the places and nothing else, so that a statement about all places is one about
all references, array elements and attributes included.
-/

namespace CilRepair

/-! ### Places -/

/-- A place in a method. -/
inductive MethodPlace
  | result
  | param (index : Nat)
  | customAttribute (index : Nat)
  | localVar (index : Nat)

/-- A place in a type. -/
inductive TypePlace
  | base
  | customAttribute (index : Nat)
  | method (index : Nat) (place : MethodPlace)

/-- **A place where a module may refer to a type.** -/
structure ReferencePlace where
  typeIndex : Nat
  inType : TypePlace

/-- The type that a method refers to at a place. -/
def MethodDef.referenceAt? (m : MethodDef) : MethodPlace → Option String
  | .result => m.result.name?
  | .param index => m.params[index]?.bind (·.sig.name?)
  | .customAttribute index => m.attributes[index]?.map (·.typeName)
  | .localVar index => (m.body.bind (·.locals[index]?)).bind (·.sig.name?)

/-- The type that a type refers to at a place. -/
def TypeDef.referenceAt? (t : TypeDef) : TypePlace → Option String
  | .base => t.base
  | .customAttribute index => t.attributes[index]?.map (·.typeName)
  | .method index place => t.methods[index]?.bind (·.referenceAt? place)

/-- **The type that a module refers to at a place.** -/
def Module.referenceAt? (m : Module) (place : ReferencePlace) : Option String :=
  m.types[place.typeIndex]?.bind (·.referenceAt? place.inType)

/-! ### All references -/

/-- The references of a method stand in its result, its parameters, its attributes and its
locals. -/
theorem MethodDef.mem_references_iff {m : MethodDef} {reference : String} :
    reference ∈ m.references ↔ ∃ place, m.referenceAt? place = some reference := by
  have hlocals : reference ∈ (m.body.map (·.typeNames)).getD [] ↔
      ∃ n, m.referenceAt? (.localVar n) = some reference := by
    cases hbody : m.body with
    | none => simp [referenceAt?, hbody]
    | some b =>
        simp only [referenceAt?, hbody, Option.map_some, Option.getD_some, Option.bind_some,
          MethodBody.typeNames, mem_filterMap_iff_getElem?]
  rw [references, List.mem_append, List.mem_append, List.mem_append, Option.mem_toList, hlocals,
    mem_filterMap_iff_getElem?, mem_map_iff_getElem?]
  constructor
  · rintro (((h | ⟨n, h⟩) | ⟨n, h⟩) | ⟨n, h⟩)
    exacts [⟨.result, h⟩, ⟨.param n, h⟩, ⟨.customAttribute n, h⟩, ⟨.localVar n, h⟩]
  · rintro ⟨place, h⟩
    cases place with
    | result => exact Or.inl (Or.inl (Or.inl h))
    | param n => exact Or.inl (Or.inl (Or.inr ⟨n, h⟩))
    | customAttribute n => exact Or.inl (Or.inr ⟨n, h⟩)
    | localVar n => exact Or.inr ⟨n, h⟩

/-- Those of a type stand in its base, its attributes and its methods.  Each list is gone through by
place, and a place that has no reference gives none. -/
theorem TypeDef.mem_references_iff {t : TypeDef} {reference : String} :
    reference ∈ t.references ↔ ∃ place, t.referenceAt? place = some reference := by
  rw [references, List.mem_append, List.mem_append, Option.mem_toList, mem_map_iff_getElem?,
    List.mem_flatMap]
  constructor
  · rintro ((h | ⟨n, h⟩) | ⟨m, hm, h⟩)
    · exact ⟨.base, h⟩
    · exact ⟨.customAttribute n, h⟩
    · obtain ⟨n, hn⟩ := List.mem_iff_getElem?.mp hm
      obtain ⟨place, hplace⟩ := MethodDef.mem_references_iff.mp h
      exact ⟨.method n place, by rw [referenceAt?, hn, Option.bind_some, hplace]⟩
  · rintro ⟨place, h⟩
    cases place with
    | base => exact Or.inl (Or.inl h)
    | customAttribute n => exact Or.inl (Or.inr ⟨n, h⟩)
    | method n place =>
        obtain ⟨m, hm, hplace⟩ := Option.bind_eq_some_iff.mp h
        exact Or.inr ⟨m, List.mem_of_getElem? hm, MethodDef.mem_references_iff.mpr ⟨place, hplace⟩⟩

/-- **The references of a module are those at its places.** -/
theorem Module.mem_references_iff {m : Module} {reference : String} :
    reference ∈ m.references ↔ ∃ place, m.referenceAt? place = some reference := by
  rw [references, List.mem_flatMap]
  constructor
  · rintro ⟨t, ht, h⟩
    obtain ⟨n, hn⟩ := List.mem_iff_getElem?.mp ht
    obtain ⟨place, hplace⟩ := TypeDef.mem_references_iff.mp h
    exact ⟨⟨n, place⟩, by rw [referenceAt?, hn, Option.bind_some, hplace]⟩
  · rintro ⟨place, h⟩
    obtain ⟨t, ht, hplace⟩ := Option.bind_eq_some_iff.mp h
    exact ⟨t, List.mem_of_getElem? ht, TypeDef.mem_references_iff.mpr ⟨_, hplace⟩⟩

/-! ### References replaced -/

/-- A signature has its name at any depth of arrays, and there it is replaced. -/
theorem TypeSig.name?_mapName (f : String → String) (sig : TypeSig) :
    (sig.mapName f).name? = sig.name?.map f := by
  induction sig with
  | array element ih => exact ih
  | _ => rfl

/-- In a method, -/
theorem MethodDef.referenceAt?_mapReferences (f : String → String) (m : MethodDef)
    (place : MethodPlace) :
    (m.mapReferences f).referenceAt? place = (m.referenceAt? place).map f := by
  cases place with
  | result => exact TypeSig.name?_mapName f m.result
  | param index =>
      rw [referenceAt?, mapReferences, List.getElem?_map, referenceAt?]
      cases m.params[index]? with
      | none => rfl
      | some p => exact TypeSig.name?_mapName f p.sig
  | customAttribute index =>
      rw [referenceAt?, mapReferences, List.getElem?_map, Option.map_map, referenceAt?,
        Option.map_map]
      rfl
  | localVar index =>
      rw [referenceAt?, mapReferences, referenceAt?]
      cases m.body with
      | none => rfl
      | some b =>
          simp only [Option.map_some, Option.bind_some, MethodBody.mapReferences,
            List.getElem?_map]
          cases b.locals[index]? with
          | none => rfl
          | some v => exact TypeSig.name?_mapName f v.sig

/-- and in a type, place by place. -/
theorem TypeDef.referenceAt?_mapReferences (f : String → String) (t : TypeDef) (place : TypePlace) :
    (t.mapReferences f).referenceAt? place = (t.referenceAt? place).map f := by
  cases place with
  | base => rfl
  | customAttribute index =>
      rw [referenceAt?, mapReferences, List.getElem?_map, Option.map_map, referenceAt?,
        Option.map_map]
      rfl
  | method index place =>
      rw [referenceAt?, mapReferences, List.getElem?_map, referenceAt?]
      cases t.methods[index]? with
      | none => rfl
      | some m => exact m.referenceAt?_mapReferences f place

/-- **A replacement of references replaces what stands at each place.** -/
theorem Module.referenceAt?_mapReferences (f : String → String) (m : Module)
    (place : ReferencePlace) :
    (m.mapReferences f).referenceAt? place = (m.referenceAt? place).map f := by
  rw [referenceAt?, mapReferences, List.getElem?_map, referenceAt?]
  cases m.types[place.typeIndex]? with
  | none => rfl
  | some t => exact t.referenceAt?_mapReferences f place.inType

/-! ### New names -/

namespace Renaming

variable (r : Renaming)

/-- New names of parameters keep their signatures, -/
theorem map_sig_renameParams (params : List Param) (names : List String) :
    (renameParams params names).map (·.sig) = params.map (·.sig) := by
  induction params generalizing names with
  | nil => cases names <;> rfl
  | cons p params ih =>
      cases names with
      | nil => rfl
      | cons name names => exact congrArg (p.sig :: ·) (ih names)

/-- so that new names in a method keep what it refers to, -/
theorem referenceAt?_applyToMethod (location : MethodLocation) (m : MethodDef)
    (place : MethodPlace) :
    (r.applyToMethod location m).referenceAt? place = m.referenceAt? place := by
  rw [applyToMethod]
  split
  · next new _ =>
      cases place with
      | param index =>
          have hsig : ∀ params : List Param, params[index]?.bind (·.sig.name?) =
              (params.map (·.sig))[index]?.bind (·.name?) := by
            intro params
            rw [List.getElem?_map, Option.bind_map]
            rfl
          rw [MethodDef.referenceAt?, hsig, map_sig_renameParams, ← hsig, MethodDef.referenceAt?]
      | _ => rfl
  · rfl

/-- and so do new names in a type. -/
theorem referenceAt?_applyToType (index : Nat) (t : TypeDef) (place : TypePlace) :
    (r.applyToType index t).referenceAt? place = t.referenceAt? place := by
  cases place with
  | method methodIndex place =>
      rw [TypeDef.referenceAt?, applyToType, List.getElem?_mapIdx, TypeDef.referenceAt?]
      cases t.methods[methodIndex]? with
      | none => rfl
      | some m => exact r.referenceAt?_applyToMethod ⟨index, methodIndex⟩ m place
  | _ => rfl

/-- **New names leave the references alone.** -/
theorem referenceAt?_apply (m : Module) (place : ReferencePlace) :
    (r.apply m).referenceAt? place = m.referenceAt? place := by
  rw [Module.referenceAt?, apply, List.getElem?_mapIdx, Module.referenceAt?]
  cases m.types[place.typeIndex]? with
  | none => rfl
  | some t => exact r.referenceAt?_applyToType place.typeIndex t place.inType

/-- **What a whole renaming makes of a reference:** it is replaced by the substitution, wherever it
stands. -/
theorem referenceAt?_run (m : Module) (place : ReferencePlace) :
    (r.run m).referenceAt? place = (m.referenceAt? place).map (r.substitution m) := by
  rw [run, Module.referenceAt?_mapReferences, referenceAt?_apply]

end Renaming

/-! ### Full names -/

/-- The full names of the types of a module. -/
def Module.fullNames (m : Module) : List String := m.types.map (·.fullName)

/-- **A full name ends in the name of its type.**  The short name is what follows the last point,
and the name of the type has none in it. -/
theorem shortName_fullName {t : TypeDef} (h : '.' ∉ t.name.toList) :
    CustomAttribute.shortName ⟨t.fullName⟩ = t.name := by
  rw [CustomAttribute.shortName, splitText, TypeDef.fullName]
  dsimp only
  split
  · rw [splitAtEach_of_notMem h]
    exact String.ofList_toList
  · have htext : (t.space ++ "." ++ t.name).toList = t.space.toList ++ '.' :: t.name.toList := by
      simp
    rw [htext, splitAtEach_append, splitAtEach_of_notMem h, List.map_append, List.map_singleton,
      List.getLastD_concat, String.ofList_toList]

end CilRepair
