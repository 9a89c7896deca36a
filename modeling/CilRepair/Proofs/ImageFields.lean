import CilRepair.Image.Decode
import CilRepair.Proofs.FlagText
import CilRepair.Proofs.Lists
import Mathlib.Data.List.Nodup

/-!
# Fields of an image

Numbers, names and records are read back from the trees that are written for them.

* `room_of_fields` — an object that fits its room leaves enough of it for its members.
* `record?_fields` — the members of an object are the fields of a record.
* `decodeList_list` — lists, item by item.
* `uint16?_nat`, `int32?_int` and the like — numbers of every width.
* `decodeOpCode_mnemonic`, `decodeSig_toJson`, `flags?_render` — names.

## Design notes

A decoder is given room, one unit for each container that may still be opened, and a written tree
has a depth.  All statements about reading back are of one form: whatever the room, if the depth of
the written tree is within it, the decoder finds the value.  Room is not given out exactly, so that
a value can be read inside of any larger one.

Records are compared as lists of fields.  The reader accepts fields in any order and the writer has
one, so it is enough here that the keys written are a sublist of the names that are known.
-/

namespace CilRepair

/-! ### Room -/

namespace Json

/-- An object is one container around its members. -/
theorem depth_fields (members : List (String × Json)) :
    (fields members).depth =
      depthMembers (members.map fun (key, value) => (some key, value)) + 1 := by
  rw [fields, depth]

/-- No member is deeper than the members, -/
theorem depth_le_depthMembers {members : List (Option String × Json)}
    {member : Option String × Json} (h : member ∈ members) :
    member.2.depth ≤ depthMembers members := by
  induction members with
  | nil => exact absurd h List.not_mem_nil
  | cons head members ih =>
      obtain ⟨key, value⟩ := head
      rw [depthMembers]
      rcases List.mem_cons.mp h with rfl | h
      · exact Nat.le_max_left _ _
      · exact Nat.le_trans (ih h) (Nat.le_max_right _ _)

/-- and no item is deeper than the items. -/
theorem depth_le_depthItems {items : List Json} {item : Json} (h : item ∈ items) :
    item.depth ≤ depthItems items := by
  induction items with
  | nil => exact absurd h List.not_mem_nil
  | cons head items ih =>
      rw [depthItems]
      rcases List.mem_cons.mp h with rfl | h
      · exact Nat.le_max_left _ _
      · exact Nat.le_trans (ih h) (Nat.le_max_right _ _)

end Json

/-- An object that fits its room leaves enough of it for each member. -/
theorem room_of_fields {members : List (String × Json)} {room : Nat}
    (h : (Json.fields members).depth ≤ room) :
    ∃ inner, room = inner + 1 ∧
      ∀ name value, members.lookup name = some value → value.depth ≤ inner := by
  rw [Json.depth_fields] at h
  obtain ⟨inner, rfl⟩ : ∃ inner, room = inner + 1 := ⟨room - 1, by omega⟩
  refine ⟨inner, rfl, fun name value hlookup => ?_⟩
  have hdepth := Json.depth_le_depthMembers (List.mem_map_of_mem
    (f := fun (member : String × Json) => (some member.1, member.2)) (mem_of_lookup hlookup))
  exact Nat.le_trans hdepth (Nat.le_of_succ_le_succ h)

/-- **A list that fits its room is read item by item.**  What comes back for an item need not be the
item: a float that is not finite is written as something else. -/
theorem decodeList_list {α β : Type} {decode : Decoder β} {encode : α → Json}
    {reread : α → Option β} {items : List α} {room : Nat}
    (h : (Json.list encode items).depth ≤ room)
    (hitem : ∀ item ∈ items, ∀ inner, (encode item).depth ≤ inner →
      decode inner (encode item) = reread item) :
    decodeList decode room (.list encode items) = items.mapM reread := by
  rw [Json.list, Json.depth] at h
  obtain ⟨inner, rfl⟩ : ∃ inner, room = inner + 1 := ⟨room - 1, by omega⟩
  have hdepth : ∀ item ∈ items, (encode item).depth ≤ inner := fun item hmem =>
    Nat.le_trans (Json.depth_le_depthItems (List.mem_map_of_mem hmem)) (Nat.le_of_succ_le_succ h)
  change (items.map encode).mapM (decode inner) = items.mapM reread
  rw [List.mapM_map]
  exact mapM_congr fun item hmem => hitem item hmem inner (hdepth item hmem)

/-- A list whose items come back as they are comes back as it is. -/
theorem decodeList_eq_some {α : Type} {decode : Decoder α} {encode : α → Json} {items : List α}
    {room : Nat} (h : (Json.list encode items).depth ≤ room)
    (hitem : ∀ item ∈ items, ∀ inner, (encode item).depth ≤ inner →
      decode inner (encode item) = some item) :
    decodeList decode room (.list encode items) = some items := by
  rw [decodeList_list h hitem]
  exact List.mapM_pure.trans (congrArg some (List.map_id items))

/-! ### Records -/

namespace Json

/-- **The members of an object are the fields of a record,** if their keys are some of its names in
order. -/
theorem record?_fields {names : List String} {members : List (String × Json)}
    (hnodup : names.Nodup) (h : (members.map (·.1)).Sublist names) :
    (fields members).record? names = some members := by
  have hdistinct :
      hasDistinct names (members.map fun (key, value) => (some key, value)) = true := by
    rw [hasDistinct, Bool.and_eq_true, List.all_eq_true, List.all_eq_true]
    refine ⟨fun member hmem => ?_, fun name _ => ?_⟩
    · obtain ⟨member, -, rfl⟩ := List.mem_map.mp hmem
      rfl
    · rw [List.countP_map, decide_eq_true_iff]
      have hcount := List.nodup_iff_count_le_one.mp (h.nodup hnodup) name
      rw [List.count, List.countP_map] at hcount
      exact hcount
  have hlookup : ∀ name, (members.map fun (key, value) => (some key, value)).lookup (some name) =
      members.lookup name := lookup_map_key (Option.some_injective String) members
  rw [fields, record?, if_pos hdistinct]
  simp only [hlookup]
  rw [filterMap_lookup hnodup h]

end Json

/-! ### Numbers -/

namespace Json

/-- A whole number is read in any range that has it. -/
theorem intIn?_int {least greatest n : Int} (h : least ≤ n) (h' : n ≤ greatest) :
    (int n).intIn? least greatest = some n := by
  rw [int, intIn?, JsonNumber.int?_ofInt, Option.filter_some, decide_eq_true h, decide_eq_true h']
  rfl

theorem natBelow?_nat {limit n : Nat} (h : n < limit) : (nat n).natBelow? limit = some n := by
  rw [natBelow?, nat, intIn?_int (by omega) (by omega)]
  rfl

theorem uint16?_nat (n : UInt16) : (nat n.toNat).uint16? = some n := by
  rw [uint16?, natBelow?_nat n.toNat_lt, Option.map_some, UInt16.ofNat_toNat]

theorem uint32?_nat (n : UInt32) : (nat n.toNat).uint32? = some n := by
  rw [uint32?, natBelow?_nat n.toNat_lt, Option.map_some, UInt32.ofNat_toNat]

theorem int8?_int (n : Int8) : (int n.toInt).int8? = some n := by
  rw [int8?, intIn?_int n.minValue_le_toInt n.toInt_le, Option.map_some, Int8.ofInt_toInt]

theorem int32?_int (n : Int32) : (int n.toInt).int32? = some n := by
  rw [int32?, intIn?_int n.minValue_le_toInt n.toInt_le, Option.map_some, Int32.ofInt_toInt]

theorem int64?_int (n : Int64) : (int n.toInt).int64? = some n := by
  rw [int64?, intIn?_int n.minValue_le_toInt n.toInt_le, Option.map_some, Int64.ofInt_toInt]

/-- **Flags are read back** with every bit that the type holds. -/
theorem flags?_render {table : FlagTable} (h : table.WellNamed) {bits : Nat}
    (hbits : bits < Nat.pow 2 table.width) : (text (table.render bits)).flags? table = some bits :=
  FlagTable.parse?_render h hbits

end Json

/-- An identity is read back, -/
theorem decodeId_toJson (id : InstrId) : decodeId id.toJson = some id := by
  rw [decodeId, InstrId.toJson, Json.uint32?_nat, Option.map_some]

/-- and so is a token. -/
theorem decodeToken_toJson (t : Token) : decodeToken t.toJson = some t := by
  rw [decodeToken, Token.toJson, Json.uint32?_nat, Option.map_some]

/-! ### Names -/

/-- The list of opcodes is complete, which is what the search for a mnemonic needs.  Families are
listed member by member, one case each. -/
theorem OpCode.mem_all (op : OpCode) : op ∈ OpCode.all := by
  have hslot : ∀ form : SlotForm, form ∈ SlotForm.all := by
    rintro (slot | _ | _)
    · exact List.mem_append_left _ (List.mem_map_of_mem (List.mem_finRange slot))
    · decide
    · decide
  have hliteral : ∀ form : LiteralForm, form ∈ LiteralForm.all := by
    rintro (shifted | _ | _)
    · exact List.mem_append_left _ (List.mem_map_of_mem (List.mem_finRange shifted))
    · decide
    · decide
  have hbranch : ∀ kind : BranchKind, kind ∈ BranchKind.all := by
    rintro (_ | _) <;> decide
  simp only [all, List.mem_append]
  cases op with
  | ldarg form => simp [hslot form]
  | ldloc form => simp [hslot form]
  | stloc form => simp [hslot form]
  | ldcI4 form => simp [hliteral form]
  | branch kind form => cases form <;> simp [hbranch kind]
  | binary op => cases op <;> simp
  | ldelem element => cases element <;> simp
  | stelem element => cases element <;> simp
  | compare test => cases test <;> simp
  | _ => simp [single]

/-- **An opcode is read back from its mnemonic.**  No two opcodes share one. -/
theorem OpCode.ofMnemonic?_mnemonic (op : OpCode) : OpCode.ofMnemonic? op.mnemonic = some op := by
  have hall : ∀ op ∈ OpCode.all, OpCode.ofMnemonic? op.mnemonic = some op := by decide +kernel
  exact hall op op.mem_all

theorem decodeOpCode_mnemonic (op : OpCode) : decodeOpCode (.text op.mnemonic) = some op :=
  op.ofMnemonic?_mnemonic

/-- **A signature is read back,** at any depth of arrays that fits its room.  By induction on the
signature. -/
theorem decodeSig_toJson (sig : TypeSig) {room : Nat} (h : sig.toJson.depth ≤ room) :
    decodeSig room sig.toJson = some sig := by
  induction sig generalizing room with
  | array element ih =>
      obtain ⟨inner, rfl, hinner⟩ := room_of_fields h
      have helement := ih (hinner "szarray" _ rfl)
      exact congrArg (Option.map TypeSig.array) helement
  | named name =>
      obtain ⟨inner, rfl, -⟩ := room_of_fields h
      rfl
  | _ => cases room <;> rfl

end CilRepair
