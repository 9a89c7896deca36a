import CilRepair.Module

/-!
# What may be changed

Whether a method may be changed, and whether one of its literals may be replaced. Every doubt is
settled against the change.

## Main definitions

* `Thresholds`: the three limits.
* `Module.isEntryPoint`, `TypeDef.isFramework`, `isLifecycleCallback`: what is called from outside.
* `Thresholds.isEligible`: a method that may be changed.
* `Thresholds.isReplaceable`, `Thresholds.constants`: literals that may be replaced.
* `Module.replaceConstants`: such literals offered to a replacement, one after the other.
-/

namespace CilRepair

/-- **The limits of the classification:** the most branches a changed body may have, the greatest
magnitude of a replaced literal, and how many instructions behind a literal are looked at. -/
structure Thresholds where
  branchLimit : Nat := 8
  magnitudeLimit : Nat := 10000
  lookahead : Nat := 3
  deriving DecidableEq

/-! ### What is called from outside -/

/-- The methods that an engine calls by name. -/
def lifecycleCallbacks : List String :=
  ["Start", "Update", "LateUpdate", "FixedUpdate", "Awake", "OnEnable", "OnDisable", "OnDestroy",
    "OnGUI", "OnCollisionEnter", "OnCollisionExit", "OnTriggerEnter", "OnTriggerExit",
    "OnMouseDown", "OnMouseUp", "OnMouseEnter", "OnMouseExit", "OnMouseOver", "OnMouseDrag",
    "OnBecameVisible", "OnBecameInvisible", "OnPreRender", "OnPostRender", "OnRenderObject",
    "OnWillRenderObject", "OnDrawGizmos", "OnDrawGizmosSelected", "OnApplicationFocus",
    "OnApplicationPause", "OnApplicationQuit"]

/-- Parts of the names of attributes whose methods stay as they are. -/
def protectedAttributes : List String := ["Serialize", "DllImport", "MonoPInvoke", "Unity"]

/-- Parts of the names of attributes that export a method. -/
def exportAttributes : List String := ["DllExport", "UnmanagedExport", "Export"]

/-- Parts of the names of attributes that make a type visible to foreign callers. -/
def visibleTypeAttributes : List String := ["ComVisible", "Guid", "ClassInterface"]

/-- Parts of the names of attributes that make a method visible to foreign callers. -/
def visibleMethodAttributes : List String := ["ComVisible", "DispId"]

/-- The base types of objects that an engine manages. -/
def frameworkBases : List String := ["UnityEngine.MonoBehaviour", "UnityEngine.ScriptableObject"]

/-- How the full names of framework types begin. -/
def frameworkSpaces : List String := ["UnityEngine.", "UnityEditor.", "System.", "Microsoft."]

/-- The method is called by name. -/
def isLifecycleCallback (name : String) : Bool := lifecycleCallbacks.contains name

/-- **The type belongs to a framework** or derives from an object that an engine manages. -/
def TypeDef.isFramework (t : TypeDef) : Bool :=
  t.base.any frameworkBases.contains
    || frameworkSpaces.any (startsWithText · t.fullName)

/-- The method has the shape of a program's start: a static `Main` without parameters or with an
array of texts, which answers nothing or a number. -/
def MethodDef.isMain (m : MethodDef) : Bool :=
  m.name == "Main" && m.isStatic && (m.result == .void || m.result == .i4)
    && match m.params with
      | [] => true
      | [arguments] => arguments.sig.isStringArray
      | _ => false

/-- **The method is part of what a module offers to its callers:** it is declared or shaped as the
start of the program, is exported, or is a public member that foreign callers see. -/
def Module.isEntryPoint (module : Module) (t : TypeDef) (m : MethodDef) : Bool :=
  module.entryPoint == some m.token
    || m.isMain
    || exportAttributes.any (hasFullName m.attributes)
    || (m.isPublic && t.isPublic
        && (visibleTypeAttributes.any (hasFullName t.attributes)
          || visibleMethodAttributes.any (hasFullName m.attributes)))

/-- **The type offers something to the callers of the module,** by a method or by itself. -/
def Module.isEntryPointType (module : Module) (t : TypeDef) : Bool :=
  t.methods.any (module.isEntryPoint t)
    || (visibleTypeAttributes ++ ["DllExport"]).any (hasFullName t.attributes)

namespace Thresholds

variable (limits : Thresholds)

/-! ### Methods -/

/-- The control flow of a method is too irregular to be changed. A method without body counts as
one of these. -/
def isComplex (m : MethodDef) : Bool :=
  match m.body with
  | none => true
  | some body =>
    decide (limits.branchLimit < body.branchCount) || body.hasSwitch || !body.handlers.isEmpty

/-- **The method may be changed.** -/
def isEligible (module : Module) (t : TypeDef) (m : MethodDef) : Bool :=
  !(m.isSpecialName || m.isConstructor || m.body.isNone || m.isAbstract || m.isVirtual
    || isLifecycleCallback m.name || limits.isComplex m
    || protectedAttributes.any (hasShortName m.attributes)
    || module.isEntryPoint t m)

/-! ### Literals -/

/-- The first of some instructions that is no padding and throws nothing away, if it is one of the
first `count` and no identity before it lacks a slot. -/
def consumer? (body : MethodBody) : (count : Nat) → List InstrId → Option Instruction
  | 0, _ | _, [] => none
  | count + 1, id :: rest =>
    match body.get? id with
    | none => none
    | some i => if i.opcode == .nop || i.opcode == .pop then consumer? body count rest else some i

/-- A value in front of the instruction decides about control. -/
def decidesControl (i : Instruction) : Bool := i.isBranch || i.isSwitch || i.opcode.isComparison

/-- **The value at a place is used to decide about control.** -/
def isInControlContext (body : MethodBody) (position : Nat) : Bool :=
  decide (position < body.length)
    && (consumer? body limits.lookahead (body.order.drop (position + 1))).any decidesControl

/-- **The literal at a place may be replaced:** it is neither tiny nor huge, decides nothing and is
not the index of an array element. -/
def isReplaceable (body : MethodBody) (position : Nat) (value : Int32) : Bool :=
  let magnitude := value.toInt.natAbs
  decide (position < body.length) && decide (1 < magnitude)
    && decide (magnitude ≤ limits.magnitudeLimit)
    && !limits.isInControlContext body position
    && !(body.at? (position + 1)).any (·.opcode.isElementAccess)

/-- **The literals of a method that may be replaced,** with their values. -/
def constants (module : Module) (t : TypeDef) (m : MethodDef) : List (InstrId × Int32) :=
  match m.body with
  | none => []
  | some body =>
    if limits.isEligible module t m then
      body.live.zipIdx.filterMap fun ((id, i), position) =>
        match i.literal? with
        | some value => if limits.isReplaceable body position value then some (id, value) else none
        | none => none
    else []

/-- The literals at a place of the module. -/
def constantsAt (module : Module) (location : MethodLocation) : List (InstrId × Int32) :=
  match module.at? location with
  | some (t, m) => limits.constants module t m
  | none => []

end Thresholds

/-- A replacement for literals: the body after it, and whether it was carried out. -/
abbrev Replacement := MethodBody → InstrId → Int32 → MethodBody × Bool

/-- Literals offered to a replacement one after the other, and how many it took. -/
def offerConstants (replace : Replacement) :
    List (InstrId × Int32) → MethodBody → MethodBody × Nat
  | [], body => (body, 0)
  | (id, value) :: rest, body =>
    let (body, done) := replace body id value
    let (body, count) := offerConstants replace rest body
    (body, count + if done then 1 else 0)

/-- **The literals of a method offered to a replacement,** and how many it took. They are collected
before the first one is offered. -/
def Module.replaceConstants (module : Module) (limits : Thresholds) (location : MethodLocation)
    (replace : Replacement) : Module × Nat :=
  match (module.at? location).bind (·.2.body) with
  | none => (module, 0)
  | some body =>
    let (body, count) := offerConstants replace (limits.constantsAt module location) body
    (module.modifyMethod location fun m => { m with body := some body }, count)

end CilRepair
