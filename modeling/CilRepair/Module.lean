import CilRepair.Body.Basic

/-!
# Modules

A module is a list of types, a type a list of methods, and a method may have a body. Types are named
by their full names wherever a signature, a base type or an attribute refers to them.

## Main definitions

* `CustomAttribute`, `Param`, `MethodDef`, `TypeDef`, `Module`.
* `TypeDef.fullName`: namespace and name.
* `MethodLocation`, `Module.locations`, `Module.at?`, `Module.modifyMethod`: methods by place.
* `Module.method?`, `Module.type?`: the first method with a token, the first type with a name.
* `Module.visitBodies`: every body transformed, with an answer for each.
-/

namespace CilRepair

/-- The application of an attribute, known by the full name of the attribute's type. -/
structure CustomAttribute where
  typeName : String
  deriving DecidableEq

/-- The name without its namespace: what follows the last point. -/
def CustomAttribute.shortName (a : CustomAttribute) : String :=
  (splitText '.' a.typeName).getLastD ""

/-- A parameter of a method. -/
structure Param where
  name : String
  sig : TypeSig
  deriving DecidableEq

/-- **A method.** Methods that are abstract or implemented elsewhere have no body. -/
structure MethodDef where
  token : Token
  name : String
  access : MethodAccess
  modifiers : MethodModifiers
  params : List Param
  result : TypeSig
  attributes : List CustomAttribute
  body : Option MethodBody
  deriving DecidableEq

/-- **A type with its methods.** -/
structure TypeDef where
  token : Token
  space : String
  name : String
  flags : TypeFlags
  base : Option String
  attributes : List CustomAttribute
  methods : List MethodDef
  deriving DecidableEq

/-- **A module.** -/
structure Module where
  name : String
  types : List TypeDef
  entryPoint : Option Token
  deriving DecidableEq

/-- Some attribute has a short name that contains the fragment. -/
def hasShortName (attributes : List CustomAttribute) (fragment : String) : Bool :=
  attributes.any fun a => containsText fragment a.shortName

/-- Some attribute has a full name that contains the fragment. -/
def hasFullName (attributes : List CustomAttribute) (fragment : String) : Bool :=
  attributes.any fun a => containsText fragment a.typeName

namespace MethodDef

/-- A private instance method without parameters, result and body. -/
def new (token : Token) (name : String) : MethodDef :=
  ⟨token, name, .withinType, .empty, [], .void, [], none⟩

variable (m : MethodDef)

/-- The method belongs to its type and not to an object. -/
def isStatic : Bool := m.modifiers.intersects 0x10

/-- The method is found by the type of the object. -/
def isVirtual : Bool := m.modifiers.intersects 0x40

/-- The method has no implementation. -/
def isAbstract : Bool := m.modifiers.intersects 0x400

/-- The name is reserved for the runtime or for tools. -/
def isSpecialName : Bool := m.modifiers.intersects 0x1800

/-- The method initialises an object or its type. -/
def isConstructor : Bool := m.name == ".ctor" || m.name == ".cctor"

/-- The method can be called from everywhere. -/
def isPublic : Bool := m.access == .everyone

/-- The method with its body transformed, and an answer if there is a body. -/
def visitBody {α : Type} (f : MethodBody → MethodBody × α) : MethodDef × List α :=
  match m.body with
  | none => (m, [])
  | some body =>
    let (body, answer) := f body
    ({ m with body := some body }, [answer])

end MethodDef

namespace TypeDef

/-- A type that is not public and declares nothing. -/
def new (token : Token) (space name : String) : TypeDef :=
  ⟨token, space, name, .empty, none, [], []⟩

variable (t : TypeDef)

/-- **Namespace and name,** or the name alone outside any namespace. -/
def fullName : String := if t.space.isEmpty then t.name else t.space ++ "." ++ t.name

/-- The type is visible from everywhere and not nested. -/
def isPublic : Bool := t.flags.isPublic

/-- The first method with a token. -/
def method? (token : Token) : Option MethodDef := t.methods.find? (·.token == token)

/-- The type with every body transformed, and an answer for each. -/
def visitBodies {α : Type} (f : MethodDef → MethodBody → MethodBody × α) : TypeDef × List α :=
  let visited := t.methods.map fun m => m.visitBody (f m)
  ({ t with methods := visited.map (·.1) }, visited.flatMap (·.2))

end TypeDef

/-- The place of a method: the index of its type, and its index in the type. -/
structure MethodLocation where
  typeIndex : Nat
  methodIndex : Nat
  deriving DecidableEq

namespace Module

/-- A module without types. -/
def new (name : String) : Module := ⟨name, [], none⟩

variable (m : Module)

/-- Every method with the type that declares it. -/
def methods : List (TypeDef × MethodDef) := m.types.flatMap fun t => t.methods.map (t, ·)

/-- The number of methods. -/
def methodCount : Nat := m.methods.length

/-- The places of all methods, in order. -/
def locations : List MethodLocation :=
  m.types.zipIdx.flatMap fun (t, typeIndex) =>
    (List.range t.methods.length).map (MethodLocation.mk typeIndex)

/-- The method at a place, with its type. -/
def at? (location : MethodLocation) : Option (TypeDef × MethodDef) := do
  let t ← m.types[location.typeIndex]?
  let method ← t.methods[location.methodIndex]?
  return (t, method)

/-- The method at a place changed; nothing happens if there is none. -/
def modifyMethod (location : MethodLocation) (f : MethodDef → MethodDef) : Module :=
  { m with
    types := m.types.modify location.typeIndex fun t =>
      { t with methods := t.methods.modify location.methodIndex f } }

/-- The first method with a token, with its type. -/
def method? (token : Token) : Option (TypeDef × MethodDef) :=
  m.methods.find? (·.2.token == token)

/-- The first type with a full name. -/
def type? (fullName : String) : Option TypeDef := m.types.find? (·.fullName == fullName)

/-- **Every body transformed, and an answer for each,** in the order of the bodies. -/
def visitBodies {α : Type} (f : TypeDef → MethodDef → MethodBody → MethodBody × α) :
    Module × List α :=
  let visited := m.types.map fun t => t.visitBodies (f t)
  ({ m with types := visited.map (·.1) }, visited.flatMap (·.2))

/-- Every body transformed. -/
def mapBodies (f : MethodBody → MethodBody) : Module :=
  (m.visitBodies fun _ _ body => (f body, ())).1

end Module

end CilRepair
