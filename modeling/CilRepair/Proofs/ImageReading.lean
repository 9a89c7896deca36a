import CilRepair.Proofs.ImageRoundTrip

/-!
# What was read

A decoder that succeeds says where its result comes from: a record was opened, and each of its
fields was decoded with one container less, or is the value of a missing field.

* `opened_of_record`, `opened_of_variant`, `exists_of_decodeList` — what opening takes off the room.
* `decodeOperand_eq_some`, `decodeBody_eq_some`, `decodeMethod_eq_some` and the like — the fields
  that hold containers.
* `Image.depth_of_parse` — what was read can be written and still fits a reader's room.  Fields that
  were missing are written, but an empty list takes one container only.
* `Image.exists_instruction_of_parse` — every instruction of a module that was read.

## Design notes

The round trip of a module that is in memory needs a bound on how deep its document goes.  For a
module that was read the bound comes from the text it was read from, and this module carries it
over: a decoder gives up one unit of room at each container that it opens, so that what it could
read is no deeper than the room that it had.

The `_eq_some` lemmas invert a decoder and keep only what the bound asks for, the fields that hold
containers.  A field that the reader fills in when it is missing is written out afterwards, so the
document may gain containers; all of them are empty lists at a fixed level, which is why the bounds
from a body upwards ask for a little room of their own (`n + 2`, `n + 3`, `n + 5`, `n + 7`).
-/

namespace CilRepair

/-! ### Shapes -/

section Shapes

variable {α : Type} {room : Nat} {value : Json} {a : α}

/-- What is read from a container was read with one container less; what is no container was read
with the room as it was. -/
theorem eq_some_of_opening {decode : Decoder α} (h : opening decode room value = some a) :
    (∃ inner, room = inner + 1 ∧ decode inner value = some a) ∨
      value.opensContainer = false ∧ decode room value = some a := by
  unfold opening at h
  split at h
  · split at h
    · exact absurd h.symm (Option.some_ne_none a)
    · next inner => exact .inl ⟨inner, rfl, h⟩
  · next hclosed => exact .inr ⟨Bool.eq_false_iff.mpr hclosed, h⟩

/-- **A record is a container.**  A value that is no container has no record, and so the other case
of `eq_some_of_opening` does not come up. -/
theorem opened_of_record {names : List String} {decode : Nat → Record → Option α}
    (h : opening (fun room value => (value.record? names).bind (decode room)) room value = some a) :
    ∃ inner r, room = inner + 1 ∧ decode inner r = some a := by
  rcases eq_some_of_opening h with ⟨inner, hroom, hdecode⟩ | ⟨hclosed, hdecode⟩
  · obtain ⟨r, -, hr⟩ := Option.bind_eq_some_iff.mp hdecode
    exact ⟨inner, r, hroom, hr⟩
  · obtain ⟨r, hr, -⟩ := Option.bind_eq_some_iff.mp hdecode
    cases value with
    | array items => exact Bool.noConfusion hclosed
    | object members => exact Bool.noConfusion hclosed
    | _ => exact absurd hr.symm (Option.some_ne_none r)

/-- **A choice is a container,** unless it has no content.  A choice without content is written as a
bare name, and that takes no room. -/
theorem opened_of_variant {decode : Nat → String × Option Json → Option α}
    (h : opening (fun room value => value.variant?.bind (decode room)) room value = some a) :
    ∃ inner name content, decode inner (name, content) = some a ∧
      (content = none ∨ room = inner + 1) := by
  rcases eq_some_of_opening h with ⟨inner, hroom, hdecode⟩ | ⟨hclosed, hdecode⟩
  · obtain ⟨⟨name, content⟩, -, hcontent⟩ := Option.bind_eq_some_iff.mp hdecode
    exact ⟨inner, name, content, hcontent, .inr hroom⟩
  · obtain ⟨⟨name, content⟩, hvariant, hcontent⟩ := Option.bind_eq_some_iff.mp hdecode
    refine ⟨room, name, content, hcontent, .inl ?_⟩
    cases value with
    | object members => exact Bool.noConfusion hclosed
    | string text =>
        cases text with
        | none => exact absurd hvariant.symm (Option.some_ne_none _)
        | some text => exact (Prod.mk.inj (Option.some.inj hvariant)).2.symm
    | _ => exact absurd hvariant.symm (Option.some_ne_none _)

/-- **The items of a list** were read with one container less.  The list itself is the container
that was opened for them. -/
theorem exists_of_decodeList {decode : Decoder α} {items : List α}
    (h : decodeList decode room value = some items) :
    ∃ inner, room = inner + 1 ∧ ∀ a ∈ items, ∃ value, decode inner value = some a := by
  rcases eq_some_of_opening h with ⟨inner, hroom, hdecode⟩ | ⟨hclosed, hdecode⟩
  · refine ⟨inner, hroom, fun a ha => ?_⟩
    cases value with
    | array values =>
        have hread : values.mapM (decode inner) = some items := hdecode
        obtain ⟨value, -, hvalue⟩ := exists_of_mem_forall₂ (mapM_eq_some_iff.mp hread) ha
        exact ⟨value, hvalue⟩
    | _ => exact absurd hdecode.symm (Option.some_ne_none items)
  · cases value with
    | array values => exact absurd hclosed (by simp [Json.opensContainer])
    | _ => exact absurd hdecode.symm (Option.some_ne_none items)

/-- So were those of a list that may have been missing, since that list has no items. -/
theorem exists_of_missing {decode : Decoder α} {items : List α}
    (h : items = [] ∨ ∃ value, decodeList decode room value = some items) :
    ∀ a ∈ items, ∃ inner value, decode inner value = some a := by
  rcases h with rfl | ⟨value, hvalue⟩
  · exact fun a ha => absurd ha List.not_mem_nil
  · obtain ⟨inner, -, hitems⟩ := exists_of_decodeList hvalue
    exact fun a ha => ⟨inner, hitems a ha⟩

end Shapes

namespace Record

variable {α : Type} {r : Record} {name : String} {decode : Json → Option α}

theorem exists_of_required {a : α} (h : r.required name decode = some a) :
    ∃ value, decode value = some a := by
  obtain ⟨value, -, hvalue⟩ := Option.bind_eq_some_iff.mp h
  exact ⟨value, hvalue⟩

/-- A field that may be missing has its default, or was there. -/
theorem exists_of_defaulted {fallback a : α} (h : r.defaulted name fallback decode = some a) :
    a = fallback ∨ ∃ value, decode value = some a := by
  rw [defaulted] at h
  split at h
  · next value _ => exact .inr ⟨value, h⟩
  · exact .inl (Option.some.inj h).symm

/-- Content that was found was read from the field. -/
theorem exists_of_nullable {content : Option α} (h : r.nullable name decode = some content) :
    ∀ a ∈ content, ∃ value, decode value = some a := by
  rw [nullable] at h
  split at h
  · rw [← Option.some.inj h]
    exact fun a ha => absurd ha (Option.not_mem_none a)
  · rw [← Option.some.inj h]
    exact fun a ha => absurd ha (Option.not_mem_none a)
  · next value _ _ =>
      obtain ⟨b, hb, rfl⟩ := Option.map_eq_some_iff.mp h
      rintro a ha
      exact ⟨value, Option.mem_some.mp ha ▸ hb⟩

end Record

/-! ### Bodies -/

section Bodies

variable {room : Nat} {value : Json}

/-- A constant is a choice with a number.  A double is the value of a number that was read, which is
what keeps it finite. -/
theorem decodeImmediate_eq_some {constant : Immediate}
    (h : decodeImmediate room value = some constant) :
    ∃ inner, room = inner + 1 ∧
      ∀ x, constant = .float64 x → ∃ n : JsonNumber, n.binary64? = some x := by
  obtain ⟨inner, name, content, hdecode, hcontent⟩ := opened_of_variant h
  obtain ⟨content, rfl, hdecode⟩ := Option.bind_eq_some_iff.mp hdecode
  refine ⟨inner, hcontent.resolve_left (Option.some_ne_none content), ?_⟩
  rintro x rfl
  dsimp only at hdecode
  split at hdecode
  case h_5 =>
    obtain ⟨y, hy, heq⟩ := Option.map_eq_some_iff.mp hdecode
    obtain rfl := Immediate.float64.inj heq
    cases content with
    | number n => exact ⟨n, hy⟩
    | _ => exact absurd hy.symm (Option.some_ne_none y)
  case h_6 => exact absurd hdecode.symm (Option.some_ne_none _)
  all_goals
    obtain ⟨y, -, heq⟩ := Option.map_eq_some_iff.mp hdecode
    exact Immediate.noConfusion heq

/-- **An operand** takes a container, unless there is none.  Its content is read in the room behind
that container, whichever kind of operand it is. -/
theorem decodeOperand_eq_some {operand : Operand} (h : decodeOperand room value = some operand) :
    operand = .absent ∨ ∃ inner, room = inner + 1 ∧
      (∀ constant, operand = .immediate constant →
        ∃ content, decodeImmediate inner content = some constant) ∧
      ∀ ids, operand = .switch ids →
        ∃ content, decodeList (fun _ => decodeId) inner content = some ids := by
  obtain ⟨inner, name, content, hdecode, hcontent⟩ := opened_of_variant h
  dsimp only at hdecode
  split at hdecode
  · split at hdecode
    · exact .inl (Option.some.inj hdecode).symm
    · exact absurd hdecode.symm (Option.some_ne_none operand)
  · obtain ⟨content, rfl, hdecode⟩ := Option.bind_eq_some_iff.mp hdecode
    refine .inr ⟨inner, hcontent.resolve_left (Option.some_ne_none content), ?_⟩
    split at hdecode
    case h_1 =>
      obtain ⟨constant, hconstant, rfl⟩ := Option.map_eq_some_iff.mp hdecode
      refine ⟨fun _ heq => ?_, fun ids heq => Operand.noConfusion heq⟩
      exact ⟨content, Operand.immediate.inj heq ▸ hconstant⟩
    case h_5 =>
      obtain ⟨ids, hids, rfl⟩ := Option.map_eq_some_iff.mp hdecode
      refine ⟨fun constant heq => Operand.noConfusion heq, fun _ heq => ?_⟩
      exact ⟨content, Operand.switch.inj heq ▸ hids⟩
    case h_8 => exact absurd hdecode.symm (Option.some_ne_none operand)
    all_goals
      obtain ⟨a, -, rfl⟩ := Option.map_eq_some_iff.mp hdecode
      exact ⟨fun constant heq => Operand.noConfusion heq, fun ids heq => Operand.noConfusion heq⟩

/-- **An instruction** has at most its operand as a container. -/
theorem decodeInstruction_eq_some {i : Instruction} (h : decodeInstruction room value = some i) :
    ∃ inner, room = inner + 1 ∧
      (i.operand = .absent ∨ ∃ value, decodeOperand inner value = some i.operand) := by
  obtain ⟨inner, r, hroom, hr⟩ := opened_of_record h
  simp only [Option.bind_eq_bind, Option.bind_eq_some_iff, Option.pure_def, Option.some.injEq] at hr
  obtain ⟨opcode, -, operand, hoperand, offset, -, rfl⟩ := hr
  exact ⟨inner, hroom, Record.exists_of_defaulted hoperand⟩

theorem decodeLocal_eq_some {v : LocalVar} (h : decodeLocal room value = some v) :
    ∃ inner, room = inner + 1 ∧ ∃ value, decodeSig inner value = some v.sig := by
  obtain ⟨inner, r, hroom, hr⟩ := opened_of_record h
  simp only [Option.bind_eq_bind, Option.bind_eq_some_iff, Option.pure_def, Option.some.injEq] at hr
  obtain ⟨name, -, sig, hsig, rfl⟩ := hr
  exact ⟨inner, hroom, Record.exists_of_required hsig⟩

theorem decodeParam_eq_some {p : Param} (h : decodeParam room value = some p) :
    ∃ inner, room = inner + 1 ∧ ∃ value, decodeSig inner value = some p.sig := by
  obtain ⟨inner, r, hroom, hr⟩ := opened_of_record h
  simp only [Option.bind_eq_bind, Option.bind_eq_some_iff, Option.pure_def, Option.some.injEq] at hr
  obtain ⟨name, -, sig, hsig, rfl⟩ := hr
  exact ⟨inner, hroom, Record.exists_of_required hsig⟩

/-- A handler holds no containers but itself. -/
theorem decodeHandler_eq_some {handler : ExceptionHandler}
    (h : decodeHandler room value = some handler) : ∃ inner, room = inner + 1 := by
  obtain ⟨inner, r, hroom, -⟩ := opened_of_record h
  exact ⟨inner, hroom⟩

/-- **A body** has its two sequences, and may lack its locals and handlers, which are then none. -/
theorem decodeBody_eq_some {b : MethodBody} (h : decodeBody room value = some b) :
    ∃ inner, room = inner + 1 ∧
      (∃ value, decodeList decodeInstruction inner value = some b.arena) ∧
      (∃ value, decodeList (fun _ => decodeId) inner value = some b.order) ∧
      (b.locals = [] ∨ ∃ value, decodeList decodeLocal inner value = some b.locals) ∧
      (b.handlers = [] ∨ ∃ value, decodeList decodeHandler inner value = some b.handlers) := by
  obtain ⟨inner, r, hroom, hr⟩ := opened_of_record h
  simp only [Option.bind_eq_bind, Option.bind_eq_some_iff, Option.pure_def, Option.some.injEq] at hr
  obtain ⟨arena, harena, order, horder, locals, hlocals, handlers, hhandlers, -, -, -, -, rfl⟩ := hr
  exact ⟨inner, hroom, Record.exists_of_required harena, Record.exists_of_required horder,
    Record.exists_of_defaulted hlocals, Record.exists_of_defaulted hhandlers⟩

end Bodies

/-! ### Modules -/

section Modules

variable {room : Nat} {value : Json}

theorem decodeAttribute_eq_some {a : CustomAttribute} (h : decodeAttribute room value = some a) :
    ∃ inner, room = inner + 1 := by
  obtain ⟨inner, r, hroom, -⟩ := opened_of_record h
  exact ⟨inner, hroom⟩

/-- **A method** may lack everything that holds containers, and what it has was read. -/
theorem decodeMethod_eq_some {m : MethodDef} (h : decodeMethod room value = some m) :
    ∃ inner, room = inner + 1 ∧
      (m.params = [] ∨ ∃ value, decodeList decodeParam inner value = some m.params) ∧
      (m.result = .void ∨ ∃ value, decodeSig inner value = some m.result) ∧
      (m.attributes = [] ∨ ∃ value, decodeList decodeAttribute inner value = some m.attributes) ∧
      ∀ b ∈ m.body, ∃ value, decodeBody inner value = some b := by
  obtain ⟨inner, r, hroom, hr⟩ := opened_of_record h
  simp only [Option.bind_eq_bind, Option.bind_eq_some_iff, Option.pure_def, Option.some.injEq] at hr
  obtain ⟨-, -, -, -, -, -, -, -, params, hparams, result, hresult, attributes, hattributes, body,
    hbody, rfl⟩ := hr
  exact ⟨inner, hroom, Record.exists_of_defaulted hparams, Record.exists_of_defaulted hresult,
    Record.exists_of_defaulted hattributes, Record.exists_of_nullable hbody⟩

/-- **A type** may lack its attributes and methods. -/
theorem decodeType_eq_some {t : TypeDef} (h : decodeType room value = some t) :
    ∃ inner, room = inner + 1 ∧
      (t.attributes = [] ∨ ∃ value, decodeList decodeAttribute inner value = some t.attributes) ∧
      (t.methods = [] ∨ ∃ value, decodeList decodeMethod inner value = some t.methods) := by
  obtain ⟨inner, r, hroom, hr⟩ := opened_of_record h
  simp only [Option.bind_eq_bind, Option.bind_eq_some_iff, Option.pure_def, Option.some.injEq] at hr
  obtain ⟨-, -, -, -, -, -, -, -, -, -, attributes, hattributes, methods, hmethods, rfl⟩ := hr
  exact ⟨inner, hroom, Record.exists_of_defaulted hattributes, Record.exists_of_defaulted hmethods⟩

theorem decodeModule_eq_some {m : Module} (h : decodeModule room value = some m) :
    ∃ inner, room = inner + 1 ∧
      (m.types = [] ∨ ∃ value, decodeList decodeType inner value = some m.types) := by
  obtain ⟨inner, r, hroom, hr⟩ := opened_of_record h
  simp only [Option.bind_eq_bind, Option.bind_eq_some_iff, Option.pure_def, Option.some.injEq] at hr
  obtain ⟨-, -, types, htypes, -, -, rfl⟩ := hr
  exact ⟨inner, hroom, Record.exists_of_defaulted htypes⟩

theorem decodeDocument_eq_some {document : ImageDocument}
    (h : decodeDocument room value = some document) :
    ∃ inner, room = inner + 1 ∧ ∃ value, decodeModule inner value = some document.module := by
  obtain ⟨inner, r, hroom, hr⟩ := opened_of_record h
  simp only [Option.bind_eq_bind, Option.bind_eq_some_iff, Option.pure_def, Option.some.injEq] at hr
  obtain ⟨-, -, -, -, module, hmodule, rfl⟩ := hr
  exact ⟨inner, hroom, Record.exists_of_required hmodule⟩

end Modules

/-! ### Room -/

namespace Json

@[simp] theorem depth_text (s : String) : (text s).depth = 0 := rfl

@[simp] theorem depth_nat (n : Nat) : (nat n).depth = 0 := rfl

@[simp] theorem depth_bool (b : Bool) : (bool b).depth = 0 := rfl

/-- A record is one container around its fields. -/
theorem depth_fields_le {members : List (String × Json)} {n : Nat}
    (h : ∀ member ∈ members, member.2.depth ≤ n) : (fields members).depth ≤ n + 1 := by
  rw [depth_fields]
  refine Nat.succ_le_succ ?_
  induction members with
  | nil => exact Nat.zero_le n
  | cons member members ih =>
      obtain ⟨key, value⟩ := member
      rw [List.map_cons, depthMembers]
      exact Nat.max_le.mpr ⟨h _ List.mem_cons_self, ih fun member hmem =>
        h member (List.mem_cons_of_mem _ hmem)⟩

/-- A list is one container around its items. -/
theorem depth_list_le {α : Type} {encode : α → Json} {items : List α} {n : Nat}
    (h : ∀ a ∈ items, (encode a).depth ≤ n) : (list encode items).depth ≤ n + 1 := by
  rw [list, depth]
  refine Nat.succ_le_succ ?_
  induction items with
  | nil => exact Nat.zero_le n
  | cons a items ih =>
      rw [List.map_cons, depthItems]
      exact Nat.max_le.mpr ⟨h a List.mem_cons_self, ih fun a hmem =>
        h a (List.mem_cons_of_mem _ hmem)⟩

theorem depth_choice_le {name : String} {content : Json} {n : Nat} (h : content.depth ≤ n) :
    (choice name content).depth ≤ n + 1 :=
  depth_fields_le fun _ hmem => List.mem_singleton.mp hmem ▸ h

theorem depth_optional_le {α : Type} {encode : α → Json} {content : Option α} {n : Nat}
    (h : ∀ a ∈ content, (encode a).depth ≤ n) : (optional encode content).depth ≤ n := by
  cases content with
  | none => exact Nat.zero_le n
  | some a => exact h a rfl

end Json

section Room

variable {room n : Nat} {value : Json}

/-- Where a container was opened, there is room for one. -/
theorem exists_of_succ_le {inner : Nat} (h : inner + 1 ≤ n) : ∃ k, n = k + 1 ∧ inner ≤ k :=
  ⟨n - 1, by omega, by omega⟩

/-- A list fits where its items do, one container further in. -/
theorem depth_list_of_decodeList {α : Type} {decode : Decoder α} {encode : α → Json}
    {items : List α} (h : decodeList decode room value = some items) (hroom : room ≤ n + 1)
    (hitem : ∀ {inner value a}, decode inner value = some a → inner ≤ n → (encode a).depth ≤ n) :
    (Json.list encode items).depth ≤ n + 1 := by
  obtain ⟨inner, rfl, hitems⟩ := exists_of_decodeList h
  refine Json.depth_list_le fun a ha => ?_
  obtain ⟨value, hvalue⟩ := hitems a ha
  exact hitem hvalue (Nat.le_of_succ_le_succ hroom)

/-- So does a list that was missing, since an empty one takes a single container.  It is here that a
document may become deeper than the one that it was read from, and by no more than this. -/
theorem depth_list_of_missing {α : Type} {decode : Decoder α} {encode : α → Json} {items : List α}
    (h : items = [] ∨ ∃ value, decodeList decode room value = some items) (hroom : room ≤ n + 1)
    (hitem : ∀ {inner value a}, decode inner value = some a → inner ≤ n → (encode a).depth ≤ n) :
    (Json.list encode items).depth ≤ n + 1 := by
  rcases h with rfl | ⟨value, hvalue⟩
  · exact Json.depth_list_le fun a ha => absurd ha List.not_mem_nil
  · exact depth_list_of_decodeList hvalue hroom hitem

theorem Immediate.depth_toJson_le (constant : Immediate) : constant.toJson.depth ≤ 1 := by
  have hfloat : ∀ (p : Prop) [Decidable p] (x : JsonNumber),
      (if p then Json.number x else .null).depth ≤ 0 := by
    intro p _ x
    split <;> exact Nat.le_refl 0
  cases constant with
  | float32 x => exact Json.depth_choice_le (hfloat _ _)
  | float64 x => exact Json.depth_choice_le (hfloat _ _)
  | _ => exact Nat.le_refl 1

/-- **An operand fits the room that it was read in.**  A table of targets is the deepest of them. -/
theorem depth_of_decodeOperand {operand : Operand} (h : decodeOperand room value = some operand)
    (hroom : room ≤ n) : operand.toJson.depth ≤ n := by
  rcases decodeOperand_eq_some h with rfl | ⟨inner, rfl, hconstant, hswitch⟩
  · exact Nat.zero_le n
  obtain ⟨n, rfl, hinner⟩ := exists_of_succ_le hroom
  cases operand with
  | immediate constant =>
      obtain ⟨content, hcontent⟩ := hconstant constant rfl
      obtain ⟨room, rfl, -⟩ := decodeImmediate_eq_some hcontent
      exact Json.depth_choice_le (constant.depth_toJson_le.trans (by omega))
  | switch ids =>
      obtain ⟨content, hcontent⟩ := hswitch ids rfl
      obtain ⟨room, rfl, -⟩ := exists_of_decodeList hcontent
      exact Json.depth_choice_le <| (Json.depth_list_le fun _ _ => Nat.zero_le 0).trans (by omega)
  | absent => exact Nat.zero_le (n + 1)
  | _ => exact Json.depth_choice_le (Nat.zero_le n)

/-- So does an instruction, whose other fields are plain. -/
theorem depth_of_decodeInstruction {i : Instruction} (h : decodeInstruction room value = some i)
    (hroom : room ≤ n) : i.toJson.depth ≤ n := by
  obtain ⟨inner, rfl, hoperand⟩ := decodeInstruction_eq_some h
  obtain ⟨n, rfl, hinner⟩ := exists_of_succ_le hroom
  by_cases habsent : i.operand = .absent
  · rw [Instruction.toJson_of_absent habsent]
    exact Json.depth_fields_le (by simp)
  · obtain ⟨content, hcontent⟩ := hoperand.resolve_left habsent
    have hdepth := depth_of_decodeOperand hcontent hinner
    rw [Instruction.toJson_of_operand habsent]
    exact Json.depth_fields_le (by simp [hdepth])

/-- A type that has a keyword is written as that keyword. -/
theorem TypeSig.depth_of_ofKeyword? {keyword : String} {sig : TypeSig}
    (h : TypeSig.ofKeyword? keyword = some sig) : sig.toJson.depth = 0 := by
  have hkeywords : ∀ sig ∈ [TypeSig.void, .bool, .i4, .i8, .r8, .string, .object],
      sig.toJson.depth = 0 := by simp [TypeSig.toJson]
  exact hkeywords sig (List.mem_of_find?_eq_some h)

/-- **A type fits the room that it was read in.**  By the cases of the reader, for arrays nest: each
is one container more, when it is read as well as when it is written. -/
theorem depth_of_decodeSig {sig : TypeSig} (h : decodeSig room value = some sig)
    (hroom : room ≤ n) : sig.toJson.depth ≤ n := by
  fun_induction decodeSig room value generalizing sig n with
  | case1 room text =>
      obtain ⟨keyword, -, hkeyword⟩ := Option.bind_eq_some_iff.mp h
      exact (TypeSig.depth_of_ofKeyword? hkeyword).le.trans (Nat.zero_le n)
  | case2 room element ih =>
      obtain ⟨sig, hsig, rfl⟩ := Option.map_eq_some_iff.mp h
      obtain ⟨n, rfl, hinner⟩ := exists_of_succ_le hroom
      exact Json.depth_choice_le (ih hsig hinner)
  | case3 room name =>
      obtain ⟨text, -, rfl⟩ := Option.map_eq_some_iff.mp h
      obtain ⟨n, rfl, -⟩ := exists_of_succ_le hroom
      exact Json.depth_choice_le (Nat.zero_le n)
  | case4 room keyword _ _ =>
      exact (TypeSig.depth_of_ofKeyword? h).le.trans (Nat.zero_le n)
  | case5 => exact absurd h.symm (Option.some_ne_none sig)

theorem depth_of_decodeLocal {v : LocalVar} (h : decodeLocal room value = some v)
    (hroom : room ≤ n) : v.toJson.depth ≤ n := by
  obtain ⟨inner, rfl, content, hcontent⟩ := decodeLocal_eq_some h
  obtain ⟨n, rfl, hinner⟩ := exists_of_succ_le hroom
  have hsig := depth_of_decodeSig hcontent hinner
  cases hname : v.name <;> exact Json.depth_fields_le (by simp [hsig, hname])

theorem depth_of_decodeParam {p : Param} (h : decodeParam room value = some p)
    (hroom : room ≤ n) : p.toJson.depth ≤ n := by
  obtain ⟨inner, rfl, content, hcontent⟩ := decodeParam_eq_some h
  obtain ⟨n, rfl, hinner⟩ := exists_of_succ_le hroom
  have hsig := depth_of_decodeSig hcontent hinner
  exact Json.depth_fields_le (by simp [hsig])

theorem depth_of_decodeHandler {handler : ExceptionHandler}
    (h : decodeHandler room value = some handler) (hroom : room ≤ n) :
    handler.toJson.depth ≤ n := by
  obtain ⟨inner, rfl⟩ := decodeHandler_eq_some h
  obtain ⟨n, rfl, -⟩ := exists_of_succ_le hroom
  have hid : ∀ id : Option InstrId, (Json.optional InstrId.toJson id).depth ≤ n := fun id =>
    Json.depth_optional_le fun _ _ => Nat.zero_le n
  have htext : ∀ text : Option String, (Json.optional Json.text text).depth ≤ n := fun text =>
    Json.depth_optional_le fun _ _ => Nat.zero_le n
  exact Json.depth_fields_le (by simp [hid, htext, InstrId.toJson])

/-- **A body fits the room that it was read in,** if there is room for an empty list in it. -/
theorem depth_of_decodeBody {b : MethodBody} (h : decodeBody room value = some b)
    (hroom : room ≤ n + 2) : b.toJson.depth ≤ n + 2 := by
  obtain ⟨inner, rfl, ⟨_, harena⟩, ⟨_, horder⟩, hlocals, hhandlers⟩ := decodeBody_eq_some h
  have hinner : inner ≤ n + 1 := Nat.le_of_succ_le_succ hroom
  have harena := depth_list_of_decodeList harena hinner depth_of_decodeInstruction
  have horder : (Json.list InstrId.toJson b.order).depth ≤ n + 1 :=
    depth_list_of_decodeList horder hinner fun _ _ => Nat.zero_le n
  have hlocals := depth_list_of_missing hlocals hinner depth_of_decodeLocal
  have hhandlers := depth_list_of_missing hhandlers hinner depth_of_decodeHandler
  exact Json.depth_fields_le (by simp [harena, horder, hlocals, hhandlers])

theorem depth_of_decodeAttribute {a : CustomAttribute} (h : decodeAttribute room value = some a)
    (hroom : room ≤ n) : a.toJson.depth ≤ n := by
  obtain ⟨inner, rfl⟩ := decodeAttribute_eq_some h
  obtain ⟨n, rfl, -⟩ := exists_of_succ_le hroom
  exact Json.depth_fields_le (by simp)

/-- A method needs room for its parameters, and its body for its sequences; both are within
three. -/
theorem depth_of_decodeMethod {m : MethodDef} (h : decodeMethod room value = some m)
    (hroom : room ≤ n + 3) : m.toJson.depth ≤ n + 3 := by
  obtain ⟨inner, rfl, hparams, hresult, hattributes, hbody⟩ := decodeMethod_eq_some h
  have hinner : inner ≤ n + 2 := Nat.le_of_succ_le_succ hroom
  have hparams := depth_list_of_missing hparams hinner depth_of_decodeParam
  have hattributes := depth_list_of_missing hattributes hinner depth_of_decodeAttribute
  have hresult : m.result.toJson.depth ≤ n + 2 := by
    rcases hresult with hvoid | ⟨content, hcontent⟩
    · rw [hvoid]
      exact Nat.zero_le (n + 2)
    · exact depth_of_decodeSig hcontent hinner
  have hbody : (Json.optional MethodBody.toJson m.body).depth ≤ n + 2 :=
    Json.depth_optional_le fun b hb => by
      obtain ⟨content, hcontent⟩ := hbody b hb
      exact depth_of_decodeBody hcontent hinner
  exact Json.depth_fields_le (by simp [Token.toJson, hparams, hattributes, hresult, hbody])

theorem depth_of_decodeType {t : TypeDef} (h : decodeType room value = some t)
    (hroom : room ≤ n + 5) : t.toJson.depth ≤ n + 5 := by
  obtain ⟨inner, rfl, hattributes, hmethods⟩ := decodeType_eq_some h
  have hinner : inner ≤ n + 4 := Nat.le_of_succ_le_succ hroom
  have hattributes := depth_list_of_missing hattributes hinner depth_of_decodeAttribute
  have hmethods := depth_list_of_missing hmethods hinner depth_of_decodeMethod
  have hbase : (Json.optional Json.text t.base).depth ≤ n + 4 :=
    Json.depth_optional_le fun _ _ => Nat.zero_le _
  exact Json.depth_fields_le (by simp [Token.toJson, hattributes, hmethods, hbase])

/-- **A module fits the room that it was read in.**  Seven containers are enough for a module whose
types and methods leave out everything that they may. -/
theorem depth_of_decodeModule {m : Module} (h : decodeModule room value = some m)
    (hroom : room ≤ n + 7) : m.toJson.depth ≤ n + 7 := by
  obtain ⟨inner, rfl, htypes⟩ := decodeModule_eq_some h
  have htypes := depth_list_of_missing htypes (Nat.le_of_succ_le_succ hroom) depth_of_decodeType
  have hentry : (Json.optional Token.toJson m.entryPoint).depth ≤ n + 6 :=
    Json.depth_optional_le fun _ _ => Nat.zero_le _
  exact Json.depth_fields_le (by simp [htypes, hentry])

end Room

/-! ### Images -/

namespace Image

variable {bytes : Bytes} {m : Module}

/-- **The document of a module that was read fits a reader's room,** whatever fields the document
that it was read from left out.  What comes after writing is therefore read again. -/
theorem depth_of_parse (h : parse bytes = .ok m) : (document m).depth ≤ documentRoom := by
  obtain ⟨⟨value, read, hread, rfl⟩, -⟩ := exists_document_of_parse h
  obtain ⟨inner, hroom, content, hmodule⟩ := decodeDocument_eq_some hread
  have hinner : inner = 126 := (Nat.succ.inj hroom).symm
  have hdepth := depth_of_decodeModule (n := 119) hmodule hinner.le
  exact Json.depth_fields_le (n := 126) (by simp [hdepth])

/-- **Every instruction was read,** live or not.  So what holds of every instruction that a reader
makes holds of all that a stage or a repair starts from. -/
theorem exists_instruction_of_parse (h : parse bytes = .ok m) :
    ∀ b ∈ m.bodies, ∀ i ∈ b.arena, ∃ room value, decodeInstruction room value = some i := by
  obtain ⟨⟨_, read, hread, rfl⟩, -⟩ := exists_document_of_parse h
  obtain ⟨_, -, _, hmodule⟩ := decodeDocument_eq_some hread
  obtain ⟨_, -, htypes⟩ := decodeModule_eq_some hmodule
  intro b hb i hi
  obtain ⟨t, ht, method, hmethod, hbody⟩ := Module.mem_bodies_iff.mp hb
  obtain ⟨_, _, htype⟩ := exists_of_missing htypes t ht
  obtain ⟨_, -, -, hmethods⟩ := decodeType_eq_some htype
  obtain ⟨_, _, hmethod⟩ := exists_of_missing hmethods method hmethod
  obtain ⟨_, -, -, -, -, hbodies⟩ := decodeMethod_eq_some hmethod
  obtain ⟨_, hbody⟩ := hbodies b hbody
  obtain ⟨_, -, ⟨_, harena⟩, -⟩ := decodeBody_eq_some hbody
  obtain ⟨_, -, hinstructions⟩ := exists_of_decodeList harena
  exact ⟨_, hinstructions i hi⟩

end Image

end CilRepair
