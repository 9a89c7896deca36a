import CilRepair.Module.References
import CilRepair.Stage.Basic

/-!
# Renaming

New names for the types, methods and parameters of a module that may have them. Every name of the
module is reserved first, so that a new name never meets an old one; references to renamed types
follow.

## Main definitions

* `Module.identifiers`: the names that are reserved.
* `renamableTypes`, `renamableMethods`: what gets a new name, judged before anything is renamed.
* `Renaming`: the new names by place. `Renaming.deal` deals out a list of names, types first and
  then each method followed by its parameters.
* `Renaming.apply`: the renamed module; `Renaming.substitution`: the full names that changed.
* `renameStage`: all of it as a stage.
-/

namespace CilRepair

/-! ### What gets a new name -/

/-- The names of the types, methods and parameters of a module. -/
def Module.identifiers (m : Module) : List String :=
  m.types.flatMap fun t =>
    t.name :: t.methods.flatMap fun method => method.name :: method.params.map (·.name)

/-- **The type may be renamed:** its name is neither made up by a compiler nor special, and it
belongs neither to a framework nor to what the module offers. -/
def Module.isRenamable (m : Module) (t : TypeDef) : Bool :=
  !(startsWithText "<" t.name || t.flags.isSpecialName || t.isFramework || m.isEntryPointType t)

/-- The indices of the types that may be renamed. -/
def renamableTypes (m : Module) : List Nat :=
  m.types.zipIdx.filterMap fun (t, index) => if m.isRenamable t then some index else none

/-- The method at a place may be renamed: it may be changed, and its type belongs to no
framework. -/
def isRenamableAt (limits : Thresholds) (m : Module) (location : MethodLocation) : Bool :=
  (m.at? location).any fun (t, method) => !t.isFramework && limits.isEligible m t method

/-- The places of the methods that may be renamed. -/
def renamableMethods (limits : Thresholds) (m : Module) : List MethodLocation :=
  m.locations.filter (isRenamableAt limits m)

/-- The number of parameters of the method at a place. -/
def paramCount (m : Module) (location : MethodLocation) : Nat :=
  ((m.at? location).map (·.2.params.length)).getD 0

/-! ### New names by place -/

/-- The new names of a method: its own and those of its parameters. -/
structure MethodRenaming where
  name : String
  params : List String

/-- **The new names of a module,** by index of the type and by place of the method. -/
structure Renaming where
  types : List (Nat × String)
  methods : List (MethodLocation × MethodRenaming)

/-- Names dealt out to methods that need one name and one for each parameter. -/
def dealMethods : List (MethodLocation × Nat) → List String →
    List (MethodLocation × MethodRenaming)
  | (location, count) :: rest, name :: names =>
    (location, ⟨name, names.take count⟩) :: dealMethods rest (names.drop count)
  | _, _ => []

/-- The number of names that a renaming needs. -/
def namesNeeded (types : List Nat) : List (MethodLocation × Nat) → Nat
  | [] => types.length
  | (_, count) :: rest => namesNeeded types rest + count + 1

/-- **Names dealt out,** first to the types and then to the methods. -/
def Renaming.deal (types : List Nat) (methods : List (MethodLocation × Nat))
    (names : List String) : Renaming :=
  ⟨types.zip names, dealMethods methods (names.drop types.length)⟩

namespace Renaming

variable (r : Renaming)

/-- Parameters with new names. -/
def renameParams : List Param → List String → List Param
  | p :: params, name :: names => { p with name } :: renameParams params names
  | params, _ => params

/-- The method at a place with its new names. -/
def applyToMethod (location : MethodLocation) (m : MethodDef) : MethodDef :=
  match r.methods.lookup location with
  | some new => { m with name := new.name, params := renameParams m.params new.params }
  | none => m

/-- The type at an index with its new names. -/
def applyToType (index : Nat) (t : TypeDef) : TypeDef :=
  { t with
    name := (r.types.lookup index).getD t.name
    methods := t.methods.mapIdx fun methodIndex => r.applyToMethod ⟨index, methodIndex⟩ }

/-- **The module with its new names.** References are left as they are. -/
def apply (m : Module) : Module := { m with types := m.types.mapIdx r.applyToType }

/-- The old and the new full name of each renamed type. -/
def fullNames (m : Module) : List (String × String) :=
  r.types.filterMap fun (index, name) =>
    m.types[index]?.map fun t => (t.fullName, { t with name }.fullName)

/-- **A reference after the renaming.** If types share a full name, the last of them counts. -/
def substitution (m : Module) (reference : String) : String :=
  ((r.fullNames m).reverse.lookup reference).getD reference

/-- The renamed module with its references. -/
def run (m : Module) : Module := (r.apply m).mapReferences (r.substitution m)

/-! ### Events -/

/-- The events about the types. -/
def typeEvents (m : Module) : List Event :=
  (r.fullNames m).map fun (old, new) => .typeRenamed old new

/-- The events about the methods. -/
def methodEvents (m : Module) : List Event :=
  r.methods.filterMap fun (location, new) =>
    (m.at? location).map fun (_, method) => .methodRenamed method.name new.name

/-- The event about the whole. Types that shared a full name count once. -/
def totalEvent (m : Module) : Event :=
  .renamed ((r.fullNames m).map (·.1)).eraseDups.length r.methods.length
    (r.methods.flatMap (·.2.params)).length

/-- All events, in order. -/
def events (m : Module) : List Event := r.typeEvents m ++ r.methodEvents m ++ [r.totalEvent m]

end Renaming

/-! ### The stage -/

variable {σ : Type}

/-- A registry with some names reserved. -/
def NameRegistry.reserveAll (names : NameRegistry σ) (taken : List String) : NameRegistry σ :=
  taken.foldl (fun names name => (names.reserve name).2) names

/-- The wording of the failure to find free names. -/
def noFreeName : String := "no free name was found"

/-- **Renaming as a stage.** If the names run out nothing is renamed. -/
def renameModule [DrawSource σ] (c : StageContext σ) : StageOutcome σ :=
  let types := renamableTypes c.module
  let methods := (renamableMethods c.limits c.module).map fun l => (l, paramCount c.module l)
  let reserved := c.names.reserveAll c.module.identifiers
  match reserved.generateAll? NameRegistry.defaultPatience (namesNeeded types methods) with
  | none => { context := c, failure := some (.stage "rename" noFreeName) }
  | some (fresh, names) =>
    let plan := Renaming.deal types methods fresh
    { context := { c with module := plan.run c.module, names }
      events := plan.events c.module }

/-- The stage of that name. -/
def renameStage [DrawSource σ] : Stage σ :=
  ⟨"rename", "Renames eligible types, methods and parameters", renameModule⟩

end CilRepair
