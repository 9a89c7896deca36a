import CilRepair.Error
import CilRepair.Image.Encode
import CilRepair.Json.Reader

/-!
# Reading images

Values from JSON trees. A record may be written as an object, whose unknown members are passed over,
or as an array of its fields in order. A choice without content may be written as its name or as an
object with the content `null`.

## Main definitions

* `Decoder`: from a tree to a value. Every container that is opened takes one off the `room`, so
  that only so many can be nested; passed-over members are never opened.
* `Json.record?`, `Json.variant?`: the two shapes.
* `decodeInstruction`, `decodeBody`, `decodeModule` and the decoders of their parts.
* `Image.parse`: a document, its marker, its version, and its bodies.
-/

namespace CilRepair

/-- **From a tree to a value,** if so much nesting is allowed. -/
abbrev Decoder (α : Type) := (room : Nat) → Json → Option α

/-- The number of containers that may be nested in a document. -/
def documentRoom : Nat := 127

/-! ### Shapes -/

/-- The fields of a record that are present, by name. -/
abbrev Record := List (String × Json)

namespace Json

/-- Every key spells a text, and none of the names is a key twice. -/
def hasDistinct (names : List String) (members : List (Option String × Json)) : Bool :=
  members.all (·.1.isSome) && names.all fun name => members.countP (·.1 == some name) ≤ 1

/-- **The fields of a record,** from an object by key or from an array by place. -/
def record? (names : List String) : Json → Option Record
  | object members =>
    if hasDistinct names members then
      some <| names.filterMap fun name => (members.lookup (some name)).map (name, ·)
    else none
  | array items => if items.length ≤ names.length then some (names.zip items) else none
  | _ => none

/-- **The name of a choice and its content.** An object for a choice has one key. -/
def variant? : Json → Option (String × Option Json)
  | string (some name) => some (name, none)
  | object [(some name, content)] => some (name, some content)
  | _ => none

/-- A value inside a container takes one off the room. -/
def opensContainer : Json → Bool
  | array _ | object _ => true
  | _ => false

end Json

/-- **A decoder of something that may be a container:** if it is one, there has to be room for it.
-/
def opening {α : Type} (decode : Decoder α) : Decoder α := fun room value =>
  if value.opensContainer then
    match room with
    | 0 => none
    | room + 1 => decode room value
  else decode room value

namespace Record

variable {α : Type} (r : Record) (name : String)

/-- A field that has to be there. -/
def required (decode : Json → Option α) : Option α := (r.lookup name).bind decode

/-- A field that has a value when it is not there. -/
def defaulted (fallback : α) (decode : Json → Option α) : Option α :=
  match r.lookup name with
  | some value => decode value
  | none => some fallback

/-- A field that may be missing or `null`. -/
def nullable (decode : Json → Option α) : Option (Option α) :=
  match r.lookup name with
  | some .null | none => some none
  | some value => (decode value).map some

end Record

/-! ### Scalars -/

namespace Json

/-- A text. -/
def text? : Json → Option String
  | string text => text
  | _ => none

/-- A truth value. -/
def bool? : Json → Option Bool
  | bool value => some value
  | _ => none

/-- An integer in a range. -/
def intIn? (least greatest : Int) : Json → Option Int
  | number n => n.int?.filter fun value => least ≤ value && value ≤ greatest
  | _ => none

/-- A natural number below a limit. -/
def natBelow? (limit : Nat) (value : Json) : Option Nat :=
  (value.intIn? 0 (limit - 1)).map Int.toNat

/-- A 16-bit number. -/
def uint16? (value : Json) : Option UInt16 := (value.natBelow? UInt16.size).map UInt16.ofNat

/-- A 32-bit number. -/
def uint32? (value : Json) : Option UInt32 := (value.natBelow? UInt32.size).map UInt32.ofNat

/-- A signed 8-bit number. -/
def int8? (value : Json) : Option Int8 :=
  (value.intIn? Int8.minValue.toInt Int8.maxValue.toInt).map Int8.ofInt

/-- A signed 64-bit number. -/
def int64? (value : Json) : Option Int64 :=
  (value.intIn? Int64.minValue.toInt Int64.maxValue.toInt).map Int64.ofInt

/-- A signed 32-bit number. -/
def int32? (value : Json) : Option Int32 :=
  (value.intIn? Int32.minValue.toInt Int32.maxValue.toInt).map Int32.ofInt

/-- A floating-point number of 32 bits. -/
def binary32? : Json → Option Binary32
  | number n => n.binary32?
  | _ => none

/-- A floating-point number of 64 bits. -/
def binary64? : Json → Option Binary64
  | number n => n.binary64?
  | _ => none

/-- The bits of a flag set. -/
def flags? (table : FlagTable) (value : Json) : Option Nat := value.text?.bind table.parse?

end Json

/-- A list of values. -/
def decodeList {α : Type} (decode : Decoder α) : Decoder (List α) :=
  opening fun room value =>
    match value with
    | .array items => items.mapM (decode room)
    | _ => none

/-- An identity. -/
def decodeId (value : Json) : Option InstrId := value.uint32?.map InstrId.mk

/-- A token. -/
def decodeToken (value : Json) : Option Token := value.uint32?.map Token.mk

/-- An opcode. -/
def decodeOpCode (value : Json) : Option OpCode := value.text?.bind OpCode.ofMnemonic?

/-! ### Bodies -/

/-- A constant. -/
def decodeImmediate : Decoder Immediate :=
  opening fun _ value => do
    let (name, content) ← value.variant?
    let content ← content
    match name with
    | "Int8" => content.int8?.map .int8
    | "Int32" => content.int32?.map .int32
    | "Int64" => content.int64?.map .int64
    | "Float32" => content.binary32?.map .float32
    | "Float64" => content.binary64?.map .float64
    | _ => none

/-- The content of a choice that has none: nothing, or `null`. -/
def isEmptyContent : Option Json → Bool
  | none | some .null => true
  | _ => false

/-- An operand. -/
def decodeOperand : Decoder Operand :=
  opening fun room value => do
    let (name, content) ← value.variant?
    if name = "None" then
      if isEmptyContent content then some .absent else none
    else
      let content ← content
      match name with
      | "Immediate" => (decodeImmediate room content).map .immediate
      | "Local" => content.uint16?.map .slot
      | "Argument" => content.uint16?.map .argument
      | "Target" => (decodeId content).map .target
      | "Switch" => (decodeList (fun _ => decodeId) room content).map .switch
      | "Token" => (decodeToken content).map .token
      | "String" => content.text?.map .text
      | _ => none

/-- An instruction. -/
def decodeInstruction : Decoder Instruction :=
  opening fun room value => do
    let r ← value.record? ["opcode", "operand", "offset"]
    let opcode ← r.required "opcode" decodeOpCode
    let operand ← r.defaulted "operand" .absent (decodeOperand room)
    let offset ← r.defaulted "offset" 0 Json.uint32?
    return ⟨opcode, operand, offset⟩

/-- The signature of a keyword. -/
def TypeSig.ofKeyword? (keyword : String) : Option TypeSig :=
  [.void, .bool, .i4, .i8, .r8, .string, .object].find? (·.keyword? == some keyword)

/-- A signature. -/
def decodeSig (room : Nat) (value : Json) : Option TypeSig :=
  match value, room with
  | .string text, _ => text.bind TypeSig.ofKeyword?
  | .object [(some "szarray", element)], room + 1 => (decodeSig room element).map .array
  | .object [(some "named", name)], _ + 1 => name.text?.map .named
  | .object [(some keyword, .null)], _ + 1 => TypeSig.ofKeyword? keyword
  | _, _ => none

/-- A local. -/
def decodeLocal : Decoder LocalVar :=
  opening fun room value => do
    let r ← value.record? ["name", "sig"]
    let name ← r.nullable "name" Json.text?
    let sig ← r.required "sig" (decodeSig room)
    return ⟨name, sig⟩

/-- A parameter. -/
def decodeParam : Decoder Param :=
  opening fun room value => do
    let r ← value.record? ["name", "sig"]
    let name ← r.required "name" Json.text?
    let sig ← r.required "sig" (decodeSig room)
    return ⟨name, sig⟩

/-- A handler. -/
def decodeHandler : Decoder ExceptionHandler :=
  opening fun _ value => do
    let r ← value.record?
      ["flags", "try_start", "try_end", "handler_start", "handler_end", "filter_start",
        "catch_type"]
    let flags ← r.required "flags" (Json.flags? HandlerFlags.table)
    let tryStart ← r.required "try_start" decodeId
    let tryEnd ← r.required "try_end" decodeId
    let handlerStart ← r.required "handler_start" decodeId
    let handlerEnd ← r.nullable "handler_end" decodeId
    let filterStart ← r.nullable "filter_start" decodeId
    let catchType ← r.nullable "catch_type" Json.text?
    return ⟨⟨UInt16.ofNat flags⟩, tryStart, tryEnd, handlerStart, handlerEnd, filterStart,
      catchType⟩

/-- A body. -/
def decodeBody : Decoder MethodBody :=
  opening fun room value => do
    let r ← value.record?
      ["arena", "order", "locals", "exception_handlers", "max_stack", "init_locals"]
    let arena ← r.required "arena" (decodeList decodeInstruction room)
    let order ← r.required "order" (decodeList (fun _ => decodeId) room)
    let locals ← r.defaulted "locals" [] (decodeList decodeLocal room)
    let handlers ← r.defaulted "exception_handlers" [] (decodeList decodeHandler room)
    let maxStack ← r.defaulted "max_stack" 0 Json.uint16?
    let initLocals ← r.defaulted "init_locals" false Json.bool?
    return ⟨arena, order, locals, handlers, maxStack, initLocals⟩

/-! ### Modules -/

/-- An attribute. -/
def decodeAttribute : Decoder CustomAttribute :=
  opening fun _ value => do
    let r ← value.record? ["type_name"]
    return ⟨← r.required "type_name" Json.text?⟩

/-- A method. -/
def decodeMethod : Decoder MethodDef :=
  opening fun room value => do
    let r ← value.record?
      ["token", "name", "access", "modifiers", "params", "return_type", "custom_attributes",
        "body"]
    let token ← r.required "token" decodeToken
    let name ← r.required "name" Json.text?
    let access ← r.defaulted "access" 1 (Json.flags? MethodAccess.table)
    let modifiers ← r.defaulted "modifiers" 0 (Json.flags? MethodModifiers.table)
    let params ← r.defaulted "params" [] (decodeList decodeParam room)
    let result ← r.defaulted "return_type" .void (decodeSig room)
    let attributes ← r.defaulted "custom_attributes" [] (decodeList decodeAttribute room)
    let body ← r.nullable "body" (decodeBody room)
    return ⟨token, name, ⟨UInt16.ofNat access⟩, ⟨UInt16.ofNat modifiers⟩, params, result,
      attributes, body⟩

/-- A type. -/
def decodeType : Decoder TypeDef :=
  opening fun room value => do
    let r ← value.record?
      ["token", "namespace", "name", "flags", "base_type", "custom_attributes", "methods"]
    let token ← r.required "token" decodeToken
    let space ← r.defaulted "namespace" "" Json.text?
    let name ← r.required "name" Json.text?
    let flags ← r.defaulted "flags" 0 (Json.flags? TypeFlags.table)
    let base ← r.nullable "base_type" Json.text?
    let attributes ← r.defaulted "custom_attributes" [] (decodeList decodeAttribute room)
    let methods ← r.defaulted "methods" [] (decodeList decodeMethod room)
    return ⟨token, space, name, ⟨UInt32.ofNat flags⟩, base, attributes, methods⟩

/-- A module. -/
def decodeModule : Decoder Module :=
  opening fun room value => do
    let r ← value.record? ["name", "types", "entry_point"]
    let name ← r.required "name" Json.text?
    let types ← r.defaulted "types" [] (decodeList decodeType room)
    let entryPoint ← r.nullable "entry_point" decodeToken
    return ⟨name, types, entryPoint⟩

/-! ### The document -/

/-- What a document says. -/
structure ImageDocument where
  format : String
  version : UInt32
  module : Module

/-- A document. -/
def decodeDocument : Decoder ImageDocument :=
  opening fun room value => do
    let r ← value.record? ["format", "version", "module"]
    let format ← r.required "format" Json.text?
    let version ← r.required "version" Json.uint32?
    let module ← r.required "module" (decodeModule room)
    return ⟨format, version, module⟩

namespace Image

/-- The first method whose body is not valid, and what is wrong with it. -/
def fault? (m : Module) : Option Malformation :=
  m.methods.findSome? fun (t, method) =>
    (method.body.bind MethodBody.arenaFault?).map (.method t.fullName method.name)

/-- **The module of an image.** The document is checked before its marker, the marker before the
version, and the version before the bodies. -/
def parse (bytes : Bytes) : Except Malformation Module :=
  match (Json.ofBytes? bytes).bind (decodeDocument documentRoom) with
  | none => .error .invalidDocument
  | some document =>
    if document.format ≠ imageMarker then .error (.unknownFormat document.format)
    else if document.version.toNat ≠ imageVersion then
      .error (.unsupportedVersion document.version.toNat)
    else match fault? document.module with
      | some fault => .error fault
      | none => .ok document.module

end Image

end CilRepair
