import CilRepair.Module

/-!
# References to types

Types are referred to by full name: by a base type, by an attribute, and by the signatures of
results, parameters and locals.

## Main definitions

* `Module.references`: all of them, in order.
* `Module.mapReferences`: each of them replaced.
-/

namespace CilRepair

/-! ### The references -/

/-- The names in the signatures of a body's locals. -/
def MethodBody.typeNames (b : MethodBody) : List String := b.locals.filterMap (·.sig.name?)

/-- The types that a method refers to. -/
def MethodDef.references (m : MethodDef) : List String :=
  m.result.name?.toList ++ m.params.filterMap (·.sig.name?) ++ m.attributes.map (·.typeName)
    ++ (m.body.map (·.typeNames)).getD []

/-- The types that a type refers to, by itself and by its methods. -/
def TypeDef.references (t : TypeDef) : List String :=
  t.base.toList ++ t.attributes.map (·.typeName) ++ t.methods.flatMap (·.references)

/-- **The types that a module refers to.** -/
def Module.references (m : Module) : List String := m.types.flatMap (·.references)

/-! ### Replacement -/

/-- An attribute with its type replaced. -/
def CustomAttribute.mapName (f : String → String) (a : CustomAttribute) : CustomAttribute :=
  ⟨f a.typeName⟩

/-- A parameter with the name in its signature replaced. -/
def Param.mapReference (f : String → String) (p : Param) : Param :=
  { p with sig := p.sig.mapName f }

/-- A local with the name in its signature replaced. -/
def LocalVar.mapReference (f : String → String) (v : LocalVar) : LocalVar :=
  { v with sig := v.sig.mapName f }

/-- A body with the names in its signatures replaced. -/
def MethodBody.mapReferences (f : String → String) (b : MethodBody) : MethodBody :=
  { b with locals := b.locals.map (·.mapReference f) }

/-- A method with its references replaced. -/
def MethodDef.mapReferences (f : String → String) (m : MethodDef) : MethodDef :=
  { m with
    result := m.result.mapName f
    params := m.params.map (·.mapReference f)
    attributes := m.attributes.map (·.mapName f)
    body := m.body.map (·.mapReferences f) }

/-- A type with its references replaced. -/
def TypeDef.mapReferences (f : String → String) (t : TypeDef) : TypeDef :=
  { t with
    base := t.base.map f
    attributes := t.attributes.map (·.mapName f)
    methods := t.methods.map (·.mapReferences f) }

/-- **A module with every reference replaced.** -/
def Module.mapReferences (f : String → String) (m : Module) : Module :=
  { m with types := m.types.map (·.mapReferences f) }

end CilRepair
