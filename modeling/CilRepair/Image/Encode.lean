import CilRepair.Body.StackDepth
import CilRepair.Error
import CilRepair.Json.Float
import CilRepair.Json.Printer
import CilRepair.Module

/-!
# Writing images

An image is a JSON document that holds a module together with a marker and a version. Records are
objects whose members have a fixed order; a choice without content is its name, any other an object
with the name as its only key.

## Main definitions

* `Instruction.toJson`, `MethodBody.toJson`, `Module.toJson` and the functions for their parts.
* `WriterOptions`: the two choices of a writer.
* `Image.encode`: the text of an image.
-/

namespace CilRepair

/-- A choice with content. -/
def Json.choice (name : String) (content : Json) : Json := .fields [(name, content)]

/-- A list as an array. -/
def Json.list {α : Type} (encode : α → Json) (items : List α) : Json := .array (items.map encode)

/-- An identity is written as its number. -/
def InstrId.toJson (id : InstrId) : Json := .nat id.index.toNat

/-- A token is written as its number. -/
def Token.toJson (t : Token) : Json := .nat t.value.toNat

/-- A constant is written with its width. -/
def Immediate.toJson : Immediate → Json
  | int8 value => .choice "Int8" (.int value.toInt)
  | int32 value => .choice "Int32" (.int value.toInt)
  | int64 value => .choice "Int64" (.int value.toInt)
  | float32 value => .choice "Float32" (.binary32 value)
  | float64 value => .choice "Float64" (.binary64 value)

/-- An operand is written with its kind. -/
def Operand.toJson : Operand → Json
  | absent => .text "None"
  | immediate value => .choice "Immediate" value.toJson
  | slot index => .choice "Local" (.nat index.toNat)
  | argument index => .choice "Argument" (.nat index.toNat)
  | target id => .choice "Target" id.toJson
  | switch ids => .choice "Switch" (.list InstrId.toJson ids)
  | token value => .choice "Token" value.toJson
  | .text value => .choice "String" (Json.text value)

/-- An instruction. An absent operand is not written. -/
def Instruction.toJson (i : Instruction) : Json :=
  .fields <|
    [("opcode", .text i.opcode.mnemonic)]
      ++ (if i.operand = .absent then [] else [("operand", i.operand.toJson)])
      ++ [("offset", .nat i.offset.toNat)]

/-- The keyword of a signature that has no parts. -/
def TypeSig.keyword? : TypeSig → Option String
  | void => some "void"
  | bool => some "boolean"
  | i4 => some "i4"
  | i8 => some "i8"
  | r8 => some "r8"
  | string => some "string"
  | object => some "object"
  | _ => none

/-- A signature is written as a keyword, an array of another, or a name. -/
def TypeSig.toJson : TypeSig → Json
  | array element => .choice "szarray" element.toJson
  | named name => .choice "named" (.text name)
  | sig => .text (sig.keyword?.getD "")

/-- A local. A missing name is not written. -/
def LocalVar.toJson (v : LocalVar) : Json :=
  .fields <| (v.name.toList.map fun name => ("name", .text name)) ++ [("sig", v.sig.toJson)]

/-- A parameter. -/
def Param.toJson (p : Param) : Json := .fields [("name", .text p.name), ("sig", p.sig.toJson)]

/-- A handler. -/
def ExceptionHandler.toJson (h : ExceptionHandler) : Json :=
  .fields
    [("flags", .text (HandlerFlags.table.render h.flags.bits.toNat)),
      ("try_start", h.tryStart.toJson), ("try_end", h.tryEnd.toJson),
      ("handler_start", h.handlerStart.toJson),
      ("handler_end", .optional InstrId.toJson h.handlerEnd),
      ("filter_start", .optional InstrId.toJson h.filterStart),
      ("catch_type", .optional .text h.catchType)]

/-- A body with its whole arena. -/
def MethodBody.toJson (b : MethodBody) : Json :=
  .fields
    [("arena", .list Instruction.toJson b.arena), ("order", .list InstrId.toJson b.order),
      ("locals", .list LocalVar.toJson b.locals),
      ("exception_handlers", .list ExceptionHandler.toJson b.handlers),
      ("max_stack", .nat b.maxStack.toNat), ("init_locals", .bool b.initLocals)]

/-- An attribute. -/
def CustomAttribute.toJson (a : CustomAttribute) : Json := .fields [("type_name", .text a.typeName)]

/-- A method. -/
def MethodDef.toJson (m : MethodDef) : Json :=
  .fields
    [("token", m.token.toJson), ("name", .text m.name),
      ("access", .text (MethodAccess.table.render m.access.bits.toNat)),
      ("modifiers", .text (MethodModifiers.table.render m.modifiers.bits.toNat)),
      ("params", .list Param.toJson m.params), ("return_type", m.result.toJson),
      ("custom_attributes", .list CustomAttribute.toJson m.attributes),
      ("body", .optional MethodBody.toJson m.body)]

/-- A type. -/
def TypeDef.toJson (t : TypeDef) : Json :=
  .fields
    [("token", t.token.toJson), ("namespace", .text t.space), ("name", .text t.name),
      ("flags", .text (TypeFlags.table.render t.flags.bits.toNat)),
      ("base_type", .optional .text t.base),
      ("custom_attributes", .list CustomAttribute.toJson t.attributes),
      ("methods", .list MethodDef.toJson t.methods)]

/-- A module. -/
def Module.toJson (m : Module) : Json :=
  .fields
    [("name", .text m.name), ("types", .list TypeDef.toJson m.types),
      ("entry_point", .optional Token.toJson m.entryPoint)]

/-! ### The document -/

/-- **The two choices of a writer:** whether declared stack sizes are kept or computed anew, and
whether the text has line breaks. -/
structure WriterOptions where
  keepMaxStack : Bool := true
  pretty : Bool := false
  deriving DecidableEq

namespace Image

/-- A module with every stack size computed anew. -/
def withComputedStacks (m : Module) : Module :=
  m.mapBodies fun body => { body with maxStack := body.computeMaxStack }

/-- The module that is written. -/
def prepared (options : WriterOptions) (m : Module) : Module :=
  if options.keepMaxStack then m else withComputedStacks m

/-- The document around a module. -/
def document (m : Module) : Json :=
  .fields [("format", .text imageMarker), ("version", .nat imageVersion), ("module", m.toJson)]

/-- **The text of an image.** -/
def encode (options : WriterOptions) (m : Module) : String :=
  let value := document (prepared options m)
  if options.pretty then value.pretty else value.compact

end Image

end CilRepair
