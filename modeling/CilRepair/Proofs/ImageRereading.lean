import CilRepair.Proofs.ImageFields
import CilRepair.Proofs.JsonText
import Mathlib

/-!
# Reading what was written

What a tree that was written for a value is read back as.  Everything but floating-point constants
comes back as it was; a constant comes back as the number that its decimal reads as, if it does.

* `Immediate.reread`, `Module.reread` — a value after it was written and read, and what leads from
  one to the other.
* `decodeImmediate_toJson`, `decodeBody_toJson`, `decodeModule_toJson` and the like — a tree that
  fits its room is read as the value reread.
* `Image.parse_encode` — the same of the bytes of an image.

## Design notes

What a value is read back as is a function of the value, `reread`, and not a relation between trees.
It differs from the identity at constants only, and it fails where a constant is lost, so that the
exact condition for an image to be read again can be stated with it and decided for each module.

Every lemma about a decoder has the same form: for any room that the written tree fits, the decoder
gives `reread`.  Records are opened by `record?_fields`, and their fields are looked up one by one;
fields that hold nothing are written by leaving them out or as `null`, and `nullable_optional` takes
care of those.
-/

namespace CilRepair

/-! ### Rereading -/

/-- **A constant after it was written and read.**  A number that is not finite is lost. -/
def Immediate.reread : Immediate → Option Immediate
  | float32 value => (Json.binary32 value).binary32?.map float32
  | float64 value => (Json.binary64 value).binary64?.map float64
  | value => some value

/-- An operand after it was written and read. -/
def Operand.reread : Operand → Option Operand
  | immediate value => value.reread.map immediate
  | operand => some operand

/-- An instruction after it was written and read. -/
def Instruction.reread (i : Instruction) : Option Instruction :=
  i.operand.reread.map fun operand => { i with operand }

/-- **A body after it was written and read,** with every slot of its arena. -/
def MethodBody.reread (b : MethodBody) : Option MethodBody :=
  (b.arena.mapM Instruction.reread).map fun arena => { b with arena }

/-- A method after it was written and read. -/
def MethodDef.reread (m : MethodDef) : Option MethodDef :=
  (m.body.mapM MethodBody.reread).map fun body => { m with body }

/-- A type after it was written and read. -/
def TypeDef.reread (t : TypeDef) : Option TypeDef :=
  (t.methods.mapM MethodDef.reread).map fun methods => { t with methods }

/-- **A module after it was written and read.** -/
def Module.reread (m : Module) : Option Module :=
  (m.types.mapM TypeDef.reread).map fun types => { m with types }

/-! ### Records -/

/-- A container is opened if there is room. -/
theorem opening_container {α : Type} {decode : Decoder α} {value : Json}
    (h : value.opensContainer = true) (inner : ℕ) :
    opening decode (inner + 1) value = decode inner value := by
  rw [opening, if_pos h]

/-- A value that may be missing is read back, or read as missing.  What is written for a value is
never `null`, so the two are told apart. -/
theorem Record.nullable_optional {α β : Type} {r : Record} {name : String} {encode : α → Json}
    {decode : Json → Option β} {reread : α → Option β} {value : Option α}
    (hlookup : r.lookup name = some (.optional encode value)) (hnull : ∀ a, encode a ≠ .null)
    (hdecode : ∀ a ∈ value, decode (encode a) = reread a) :
    r.nullable name decode = value.mapM reread := by
  rw [nullable, hlookup]
  cases value with
  | none => rfl
  | some a =>
      rw [Json.optional, ← Option.map_eq_map]
      split
      · next heq => exact absurd (Option.some.inj heq) (hnull a)
      · next heq => exact absurd heq (Option.some_ne_none _)
      · next heq =>
          rw [← Option.some.inj heq, hdecode a rfl]
          rfl

/-- The same for values that come back as they were. -/
theorem Record.nullable_eq_some {α : Type} {r : Record} {name : String} {encode : α → Json}
    {decode : Json → Option α} {value : Option α}
    (hlookup : r.lookup name = some (.optional encode value)) (hnull : ∀ a, encode a ≠ .null)
    (hdecode : ∀ a, decode (encode a) = some a) : r.nullable name decode = some value := by
  rw [nullable_optional hlookup hnull fun a _ => hdecode a]
  cases value <;> rfl

/-! ### Bodies -/

section Bodies

variable {room : ℕ}

/-- **A constant is read back** as the number that its decimal reads as. -/
theorem decodeImmediate_toJson (value : Immediate) (h : value.toJson.depth ≤ room) :
    decodeImmediate room value.toJson = value.reread := by
  cases value with
  | int8 n =>
      obtain ⟨inner, rfl, -⟩ := room_of_fields h
      rw [decodeImmediate, opening_container rfl]
      exact congrArg (Option.map Immediate.int8) (Json.int8?_int n)
  | int32 n =>
      obtain ⟨inner, rfl, -⟩ := room_of_fields h
      rw [decodeImmediate, opening_container rfl]
      exact congrArg (Option.map Immediate.int32) (Json.int32?_int n)
  | int64 n =>
      obtain ⟨inner, rfl, -⟩ := room_of_fields h
      rw [decodeImmediate, opening_container rfl]
      exact congrArg (Option.map Immediate.int64) (Json.int64?_int n)
  | float32 x =>
      obtain ⟨inner, rfl, -⟩ := room_of_fields h
      rfl
  | float64 x =>
      obtain ⟨inner, rfl, -⟩ := room_of_fields h
      rfl

/-- **An operand is read back** as it was, unless it is a constant that is lost.  One case for each
kind of operand, each with the container that its tag takes. -/
theorem decodeOperand_toJson (operand : Operand) (h : operand.toJson.depth ≤ room) :
    decodeOperand room operand.toJson = operand.reread := by
  cases operand with
  | absent => cases room <;> rfl
  | immediate value =>
      obtain ⟨inner, rfl, hinner⟩ := room_of_fields h
      have hvalue := decodeImmediate_toJson value (hinner "Immediate" _ rfl)
      rw [decodeOperand, opening_container rfl]
      exact congrArg (Option.map Operand.immediate) hvalue
  | slot index =>
      obtain ⟨inner, rfl, -⟩ := room_of_fields h
      rw [decodeOperand, opening_container rfl]
      exact congrArg (Option.map Operand.slot) (Json.uint16?_nat index)
  | argument index =>
      obtain ⟨inner, rfl, -⟩ := room_of_fields h
      rw [decodeOperand, opening_container rfl]
      exact congrArg (Option.map Operand.argument) (Json.uint16?_nat index)
  | target id =>
      obtain ⟨inner, rfl, -⟩ := room_of_fields h
      rw [decodeOperand, opening_container rfl]
      exact congrArg (Option.map Operand.target) (decodeId_toJson id)
  | switch ids =>
      obtain ⟨inner, rfl, hinner⟩ := room_of_fields h
      have hids : decodeList (fun _ => decodeId) inner (.list InstrId.toJson ids) = some ids :=
        decodeList_eq_some (hinner "Switch" _ rfl) fun id _ _ _ => decodeId_toJson id
      rw [decodeOperand, opening_container rfl]
      exact congrArg (Option.map Operand.switch) hids
  | token value =>
      obtain ⟨inner, rfl, -⟩ := room_of_fields h
      rw [decodeOperand, opening_container rfl]
      exact congrArg (Option.map Operand.token) (decodeToken_toJson value)
  | text value =>
      obtain ⟨inner, rfl, -⟩ := room_of_fields h
      rfl

/-- An instruction with an operand has a member for it. -/
theorem Instruction.toJson_of_operand {i : Instruction} (h : i.operand ≠ .absent) :
    i.toJson = .fields
      [("opcode", .text i.opcode.mnemonic), ("operand", i.operand.toJson),
        ("offset", .nat i.offset.toNat)] := by
  rw [toJson, if_neg h]
  rfl

theorem Instruction.toJson_of_absent {i : Instruction} (h : i.operand = .absent) :
    i.toJson =
      .fields [("opcode", .text i.opcode.mnemonic), ("offset", .nat i.offset.toNat)] := by
  rw [toJson, if_pos h]
  rfl

/-- **An instruction is read back** with its opcode and its offset, and with its operand reread. -/
theorem decodeInstruction_toJson (i : Instruction) (h : i.toJson.depth ≤ room) :
    decodeInstruction room i.toJson = i.reread := by
  have hopcode := decodeOpCode_mnemonic i.opcode
  have hoffset := Json.uint32?_nat i.offset
  -- An operand that is missing is left out of the record, and a reader takes it for missing.
  by_cases habsent : i.operand = .absent
  · rw [Instruction.toJson_of_absent habsent] at h ⊢
    obtain ⟨inner, rfl, -⟩ := room_of_fields h
    have hrecord : Json.record? ["opcode", "operand", "offset"]
        (.fields [("opcode", .text i.opcode.mnemonic), ("offset", .nat i.offset.toNat)]) = some _ :=
      Json.record?_fields (by decide) (((List.Sublist.refl _).cons _).cons_cons _)
    rw [decodeInstruction, opening_container rfl, hrecord, Instruction.reread, habsent]
    simp only [Record.required, Record.defaulted, ← habsent, Option.pure_def, Option.bind_eq_bind,
      Option.bind_some, List.lookup, hopcode, String.reduceBEq, hoffset, Operand.reread,
      Option.map_some]
  · rw [Instruction.toJson_of_operand habsent] at h ⊢
    obtain ⟨inner, rfl, hinner⟩ := room_of_fields h
    have hoperand := decodeOperand_toJson i.operand (hinner "operand" _ rfl)
    have hrecord : Json.record? ["opcode", "operand", "offset"] (.fields
        [("opcode", .text i.opcode.mnemonic), ("operand", i.operand.toJson),
          ("offset", .nat i.offset.toNat)]) = some _ :=
      Json.record?_fields (by decide) (List.Sublist.refl _)
    rw [decodeInstruction, opening_container rfl, hrecord, Instruction.reread]
    simp only [Record.required, Record.defaulted, Option.pure_def, Option.bind_eq_bind,
      Option.bind_some, List.lookup, hopcode, String.reduceBEq, hoperand, hoffset]
    cases i.operand.reread <;> rfl

/-- A local is read back, named or not.  A name that is missing is written as null. -/
theorem decodeLocal_toJson (v : LocalVar) (h : v.toJson.depth ≤ room) :
    decodeLocal room v.toJson = some v := by
  obtain ⟨name, sig⟩ := v
  cases name with
  | none =>
      obtain ⟨inner, rfl, hinner⟩ := room_of_fields h
      have hsig := decodeSig_toJson sig (hinner "sig" _ rfl)
      have hrecord : (LocalVar.toJson ⟨none, sig⟩).record? ["name", "sig"] = some _ :=
        Json.record?_fields (by decide) ((List.Sublist.refl _).cons _)
      rw [decodeLocal, opening_container rfl, hrecord]
      simp only [Option.toList_none, List.map_nil, List.nil_append, Record.nullable,
        Record.required, Option.pure_def, Option.bind_eq_bind, Option.bind_some, List.lookup,
        String.reduceBEq, hsig]
  | some name =>
      obtain ⟨inner, rfl, hinner⟩ := room_of_fields h
      have hsig := decodeSig_toJson sig (hinner "sig" _ rfl)
      have hrecord : (LocalVar.toJson ⟨some name, sig⟩).record? ["name", "sig"] = some _ :=
        Json.record?_fields (by decide) (List.Sublist.refl _)
      rw [decodeLocal, opening_container rfl, hrecord]
      simp only [Json.text, Option.toList_some, List.map_cons, List.map_nil, List.cons_append,
        List.nil_append, Record.nullable, Json.text?, Record.required, Option.pure_def,
        Option.bind_eq_bind, Option.bind_some, List.lookup, Option.map_some, String.reduceBEq, hsig]

theorem decodeParam_toJson (p : Param) (h : p.toJson.depth ≤ room) :
    decodeParam room p.toJson = some p := by
  obtain ⟨inner, rfl, hinner⟩ := room_of_fields h
  have hsig := decodeSig_toJson p.sig (hinner "sig" _ rfl)
  have hrecord : p.toJson.record? ["name", "sig"] = some _ :=
    Json.record?_fields (by decide) (List.Sublist.refl _)
  rw [decodeParam, opening_container rfl, hrecord]
  simp only [Json.text, Record.required, Option.pure_def, Option.bind_eq_bind, Option.bind_some,
    List.lookup, Json.text?, String.reduceBEq, hsig]

/-- A handler is read back with whichever boundaries it has.  Missing ones are written as null, and
a reader takes null for missing. -/
theorem decodeHandler_toJson (handler : ExceptionHandler) (h : handler.toJson.depth ≤ room) :
    decodeHandler room handler.toJson = some handler := by
  obtain ⟨inner, rfl, -⟩ := room_of_fields h
  have hflags := Json.flags?_render HandlerFlags.wellNamed handler.flags.bits.toNat_lt
  have hid : ∀ id : InstrId, id.toJson ≠ .null := fun _ => Json.noConfusion
  have htext : ∀ text : String, Json.text text ≠ .null := fun _ => Json.noConfusion
  have hrecord : handler.toJson.record?
      ["flags", "try_start", "try_end", "handler_start", "handler_end", "filter_start",
        "catch_type"] = some _ :=
    Json.record?_fields (by decide) (List.Sublist.refl _)
  rw [decodeHandler, opening_container rfl, hrecord, Option.bind_eq_bind, Option.bind_some,
    Record.nullable_eq_some rfl hid decodeId_toJson,
    Record.nullable_eq_some rfl hid decodeId_toJson,
    Record.nullable_eq_some rfl htext fun _ => rfl]
  simp only [Record.required, List.lookup, Option.bind_some, hflags, String.reduceBEq,
    decodeId_toJson, Option.pure_def, Option.bind_eq_bind, UInt16.ofNat_toNat]

/-- **A body is read as it was written,** but for its constants.  All slots are written, dead ones
too, and it is read back if none of their constants is lost. -/
theorem decodeBody_toJson (b : MethodBody) (h : b.toJson.depth ≤ room) :
    decodeBody room b.toJson = b.reread := by
  obtain ⟨inner, rfl, hinner⟩ := room_of_fields h
  have harena : decodeList decodeInstruction inner (.list Instruction.toJson b.arena) =
      b.arena.mapM Instruction.reread :=
    decodeList_list (hinner "arena" _ rfl) fun i _ _ => decodeInstruction_toJson i
  have horder : decodeList (fun _ => decodeId) inner (.list InstrId.toJson b.order) =
      some b.order :=
    decodeList_eq_some (hinner "order" _ rfl) fun id _ _ _ => decodeId_toJson id
  have hlocals : decodeList decodeLocal inner (.list LocalVar.toJson b.locals) = some b.locals :=
    decodeList_eq_some (hinner "locals" _ rfl) fun v _ _ => decodeLocal_toJson v
  have hhandlers : decodeList decodeHandler inner (.list ExceptionHandler.toJson b.handlers) =
      some b.handlers :=
    decodeList_eq_some (hinner "exception_handlers" _ rfl) fun handler _ _ =>
      decodeHandler_toJson handler
  have hrecord : b.toJson.record?
      ["arena", "order", "locals", "exception_handlers", "max_stack", "init_locals"] = some _ :=
    Json.record?_fields (by decide) (List.Sublist.refl _)
  rw [decodeBody, opening_container rfl, hrecord]
  simp only [Record.required, Record.defaulted, Json.bool?, Option.pure_def, Option.bind_eq_bind,
    Option.bind_some, List.lookup, harena, String.reduceBEq, horder, hlocals, hhandlers,
    Json.uint16?_nat, MethodBody.reread]
  cases b.arena.mapM Instruction.reread <;> rfl

end Bodies

/-! ### Modules -/

section Modules

variable {room : ℕ}

theorem decodeAttribute_toJson (a : CustomAttribute) (h : a.toJson.depth ≤ room) :
    decodeAttribute room a.toJson = some a := by
  obtain ⟨inner, rfl, -⟩ := room_of_fields h
  have hrecord : a.toJson.record? ["type_name"] = some _ :=
    Json.record?_fields (by decide) (List.Sublist.refl _)
  rw [decodeAttribute, opening_container rfl, hrecord]
  rfl

theorem decodeAttributes_toJson (attributes : List CustomAttribute)
    (h : (Json.list CustomAttribute.toJson attributes).depth ≤ room) :
    decodeList decodeAttribute room (.list CustomAttribute.toJson attributes) = some attributes :=
  decodeList_eq_some h fun a _ _ => decodeAttribute_toJson a

/-- A method without a body is read back as it was; a body is reread.  All other fields come back by
the lemma about their own decoder. -/
theorem decodeMethod_toJson (m : MethodDef) (h : m.toJson.depth ≤ room) :
    decodeMethod room m.toJson = m.reread := by
  obtain ⟨inner, rfl, hinner⟩ := room_of_fields h
  have haccess := Json.flags?_render MethodAccess.wellNamed m.access.bits.toNat_lt
  have hmodifiers := Json.flags?_render MethodModifiers.wellNamed m.modifiers.bits.toNat_lt
  have hparams : decodeList decodeParam inner (.list Param.toJson m.params) = some m.params :=
    decodeList_eq_some (hinner "params" _ rfl) fun p _ _ => decodeParam_toJson p
  have hresult := decodeSig_toJson m.result (hinner "return_type" _ rfl)
  have hattributes := decodeAttributes_toJson m.attributes (hinner "custom_attributes" _ rfl)
  have hbody : ∀ b ∈ m.body, decodeBody inner b.toJson = b.reread := by
    intro b hb
    have hdepth := hinner "body" _ rfl
    rw [Option.mem_def.mp hb] at hdepth
    exact decodeBody_toJson b hdepth
  have hrecord : m.toJson.record?
      ["token", "name", "access", "modifiers", "params", "return_type", "custom_attributes",
        "body"] = some _ :=
    Json.record?_fields (by decide) (List.Sublist.refl _)
  rw [decodeMethod, opening_container rfl, hrecord, Option.bind_eq_bind, Option.bind_some,
    Record.nullable_optional rfl (fun _ => Json.noConfusion) hbody]
  simp only [Record.required, List.lookup, Option.bind_some, decodeToken_toJson, String.reduceBEq,
    Json.text?, Record.defaulted, haccess, hmodifiers, hparams, hresult, hattributes,
    Option.pure_def, Option.bind_eq_bind, UInt16.ofNat_toNat, MethodDef.reread]
  cases m.body.mapM MethodBody.reread <;> rfl

/-- A type is read back with its methods reread, one by one. -/
theorem decodeType_toJson (t : TypeDef) (h : t.toJson.depth ≤ room) :
    decodeType room t.toJson = t.reread := by
  obtain ⟨inner, rfl, hinner⟩ := room_of_fields h
  have hflags := Json.flags?_render TypeFlags.wellNamed t.flags.bits.toNat_lt
  have htext : ∀ text : String, Json.text text ≠ .null := fun _ => Json.noConfusion
  have hattributes := decodeAttributes_toJson t.attributes (hinner "custom_attributes" _ rfl)
  have hmethods : decodeList decodeMethod inner (.list MethodDef.toJson t.methods) =
      t.methods.mapM MethodDef.reread :=
    decodeList_list (hinner "methods" _ rfl) fun m _ _ => decodeMethod_toJson m
  have hrecord : t.toJson.record?
      ["token", "namespace", "name", "flags", "base_type", "custom_attributes", "methods"] =
        some _ :=
    Json.record?_fields (by decide) (List.Sublist.refl _)
  rw [decodeType, opening_container rfl, hrecord, Option.bind_eq_bind, Option.bind_some,
    Record.nullable_eq_some rfl htext fun _ => rfl]
  simp only [Record.required, List.lookup, Option.bind_some, decodeToken_toJson, Record.defaulted,
    String.reduceBEq, Json.text?, hflags, hattributes, hmethods, Option.pure_def,
    Option.bind_eq_bind, UInt32.ofNat_toNat, TypeDef.reread]
  cases t.methods.mapM MethodDef.reread <;> rfl

/-- **A module is read as it was written,** but for its constants. -/
theorem decodeModule_toJson (m : Module) (h : m.toJson.depth ≤ room) :
    decodeModule room m.toJson = m.reread := by
  obtain ⟨inner, rfl, hinner⟩ := room_of_fields h
  have htoken : ∀ t : Token, t.toJson ≠ .null := fun _ => Json.noConfusion
  have htypes : decodeList decodeType inner (.list TypeDef.toJson m.types) =
      m.types.mapM TypeDef.reread :=
    decodeList_list (hinner "types" _ rfl) fun t _ _ => decodeType_toJson t
  have hrecord : m.toJson.record? ["name", "types", "entry_point"] = some _ :=
    Json.record?_fields (by decide) (List.Sublist.refl _)
  rw [decodeModule, opening_container rfl, hrecord, Option.bind_eq_bind, Option.bind_some,
    Record.nullable_eq_some rfl htoken decodeToken_toJson]
  simp only [Record.required, List.lookup, Option.bind_some, Json.text?, Record.defaulted,
    String.reduceBEq, htypes, Option.pure_def, Option.bind_eq_bind, Module.reread]
  cases m.types.mapM TypeDef.reread <;> rfl

end Modules

/-! ### Documents -/

namespace Image

/-- A document is read back with the marker and the version that every document has. -/
theorem decodeDocument_document (m : Module) (h : (document m).depth ≤ documentRoom) :
    decodeDocument documentRoom (document m) =
      m.reread.map fun module => ⟨imageMarker, UInt32.ofNat imageVersion, module⟩ := by
  obtain ⟨inner, hroom, hinner⟩ := room_of_fields h
  have hmodule := decodeModule_toJson m (hinner "module" _ rfl)
  have hversion : (Json.nat imageVersion).uint32? = some (UInt32.ofNat imageVersion) :=
    Json.uint32?_nat (UInt32.ofNat imageVersion)
  have hrecord : (document m).record? ["format", "version", "module"] = some _ :=
    Json.record?_fields (by decide) (List.Sublist.refl _)
  rw [hroom, decodeDocument, opening_container rfl, hrecord]
  simp only [Record.required, Option.pure_def, Option.bind_eq_bind, Option.bind_some, List.lookup,
    Json.text?, String.reduceBEq, hversion, hmodule]
  cases m.reread <;> rfl

/-- In both layouts the text is read as the tree that was written. -/
theorem ofBytes?_encode (options : WriterOptions) (m : Module) :
    Json.ofBytes? (utf8 (encode options m)) = some (document (prepared options m)) := by
  rw [encode]
  split
  · exact Json.ofBytes?_pretty _
  · exact Json.ofBytes?_compact _

/-- **What the bytes of an image are read as:** the module that was written, reread, if no constant
is lost and the bodies are valid.  Within the room of a reader nothing else can make it fail. -/
theorem parse_encode (options : WriterOptions) (m : Module)
    (h : (document (prepared options m)).depth ≤ documentRoom) :
    parse (utf8 (encode options m)) =
      match (prepared options m).reread with
      | none => .error .invalidDocument
      | some reread =>
        match fault? reread with
        | some fault => .error fault
        | none => .ok reread := by
  rw [parse, ofBytes?_encode, Option.bind_some, decodeDocument_document _ h]
  cases (prepared options m).reread with
  | none => rfl
  | some reread =>
      rw [Option.map_some]
      dsimp only
      exact (if_neg (not_not_intro rfl)).trans (if_neg (by decide))

end Image

end CilRepair
