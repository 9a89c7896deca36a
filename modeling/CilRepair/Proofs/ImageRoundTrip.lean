import CilRepair.Proofs.ImageRereading
import CilRepair.Proofs.ModuleBodies

/-!
# Images there and back

A module without floating-point constants is read from its image as it was written.

* `mapM_eq_some_iff` — what reading a list item by item comes to.
* `Module.reread_bodies` — the bodies of a module after it was written and read.
* `Module.FloatFree`, `Module.reread_of_floatFree` — such a module comes back as it is.
* `Image.depth_withComputedStacks` — computed stack sizes take the same room.
* `Image.parse_encode_floatFree` — the bytes of an image, with kept and with computed stack sizes.

## Design notes

Two things are put together here: that the bytes of an image are read as the module reread, and that
a module without floating-point constants is its own rereading.  The second is the same statement at
each level, because all levels are lists whose items are read one by one.

Computed stack sizes are a change of the module before it is written.  They are numbers in place of
numbers, so the depth of the document is the same, and neither validity nor constants are concerned;
the case of computed sizes is then the case of kept ones for the changed module.
-/

namespace CilRepair

/-! ### Item by item -/

section Items

variable {α β : Type} {f : α → Option β}

/-- A list is read if each of its items is, and what comes back is read item by item.  By induction
on the items, with the failure of one as the failure of all. -/
theorem mapM_eq_some_iff {items : List α} {result : List β} :
    items.mapM f = some result ↔ List.Forall₂ (fun a b => f a = some b) items result := by
  induction items generalizing result with
  | nil =>
      rw [List.mapM_nil, List.forall₂_nil_left_iff]
      exact ⟨fun h => (Option.some.inj h).symm, fun h => congrArg some h.symm⟩
  | cons a items ih =>
      rw [List.mapM_cons, List.forall₂_cons_left_iff]
      simp only [Option.bind_eq_bind, Option.bind_eq_some_iff, Option.pure_def, Option.some.injEq]
      constructor
      · rintro ⟨b, hb, rest, hrest, rfl⟩
        exact ⟨b, rest, hb, ih.mp hrest, rfl⟩
      · rintro ⟨b, rest, hb, hrest, rfl⟩
        exact ⟨b, hb, rest, ih.mpr hrest, rfl⟩

/-- Items that come back as they are make a list that does, -/
theorem mapM_eq_self {f : α → Option α} {items : List α} (h : ∀ a ∈ items, f a = some a) :
    items.mapM f = some items :=
  mapM_eq_some_iff.mpr (List.forall₂_same.mpr h)

/-- and a list comes back if all of its items do. -/
theorem isSome_mapM {items : List α} :
    (items.mapM f).isSome = true ↔ ∀ a ∈ items, (f a).isSome = true := by
  induction items with
  | nil => simp
  | cons a items ih =>
      rw [List.mapM_cons, List.forall_mem_cons, ← ih]
      cases f a <;> cases items.mapM f <;> simp

theorem isSome_mapM_option {value : Option α} :
    (value.mapM f).isSome = true ↔ ∀ a ∈ value, (f a).isSome = true := by
  cases value with
  | none => simp [Option.mapM]
  | some a => cases hf : f a <;> simp [Option.mapM, hf]

end Items

/-! ### Bodies of a reread module -/

/-- Reading keeps the sequence of a body and the number of its slots. -/
theorem MethodBody.arenaValid_of_reread {b c : MethodBody} (h : b.reread = some c)
    (hvalid : b.ArenaValid) : c.ArenaValid := by
  obtain ⟨arena, harena, rfl⟩ := Option.map_eq_some_iff.mp h
  have hlength := (mapM_eq_some_iff.mp harena).length_eq
  exact ⟨fun id hid => hlength ▸ hvalid.slot_lt id hid, hvalid.nodup⟩

namespace Module

variable {m reread : Module}

/-- **A module comes back** exactly if every constant of every arena does.  Nothing else can be
lost. -/
theorem isSome_reread :
    m.reread.isSome = true ↔
      ∀ b ∈ m.bodies, ∀ i ∈ b.arena, i.reread.isSome = true := by
  simp only [Module.reread, TypeDef.reread, MethodDef.reread, MethodBody.reread, Option.isSome_map,
    isSome_mapM, isSome_mapM_option, mem_bodies_iff]
  constructor
  · rintro h b ⟨t, ht, method, hmethod, hb⟩
    exact h t ht method hmethod b hb
  · rintro h t ht method hmethod b hb
    exact h b ⟨t, ht, method, hmethod, hb⟩

/-- The bodies that come back are those that were written, reread.  They are looked for in types and
methods, which come back one by one. -/
theorem exists_of_mem_reread (h : m.reread = some reread) {b : MethodBody}
    (hb : b ∈ reread.bodies) : ∃ written ∈ m.bodies, written.reread = some b := by
  obtain ⟨types, htypes, rfl⟩ := Option.map_eq_some_iff.mp h
  obtain ⟨t', ht', method', hmethod', hbody'⟩ := mem_bodies_iff.mp hb
  obtain ⟨t, ht, hreread⟩ := exists_of_mem_forall₂ (mapM_eq_some_iff.mp htypes) ht'
  obtain ⟨methods, hmethods, rfl⟩ := Option.map_eq_some_iff.mp hreread
  obtain ⟨method, hmethod, hreread⟩ := exists_of_mem_forall₂ (mapM_eq_some_iff.mp hmethods) hmethod'
  obtain ⟨body, hbody, rfl⟩ := Option.map_eq_some_iff.mp hreread
  obtain rfl : body = some b := hbody'
  cases hwritten : method.body with
  | none => simp [hwritten, Option.mapM] at hbody
  | some written =>
      refine ⟨written, mem_bodies_iff.mpr ⟨t, ht, method, hmethod, hwritten⟩, ?_⟩
      rw [hwritten] at hbody
      obtain ⟨b', hb', heq⟩ := Option.map_eq_some_iff.mp hbody
      exact Option.some.inj heq ▸ hb'

theorem arenasValid_of_reread (h : m.reread = some reread) (hvalid : m.ArenasValid) :
    reread.ArenasValid := by
  intro b hb
  obtain ⟨written, hwritten, hreread⟩ := exists_of_mem_reread h hb
  exact MethodBody.arenaValid_of_reread hreread (hvalid written hwritten)

end Module

/-! ### Modules without floating-point constants -/

/-- The operand is a floating-point constant. -/
def Instruction.isFloat (i : Instruction) : Bool :=
  match i.operand with
  | .immediate (.float32 _) | .immediate (.float64 _) => true
  | _ => false

/-- **No slot of a body holds a floating-point constant,** live or not. -/
def Module.FloatFree (m : Module) : Prop := ∀ b ∈ m.bodies, ∀ i ∈ b.arena, i.isFloat = false

/-- An instruction without such a constant comes back as it is, -/
theorem Instruction.reread_of_floatFree {i : Instruction} (h : i.isFloat = false) :
    i.reread = some i := by
  obtain ⟨opcode, operand, offset⟩ := i
  cases operand with
  | immediate value =>
      cases value with
      | float32 x => exact absurd h Bool.noConfusion
      | float64 x => exact absurd h Bool.noConfusion
      | _ => rfl
  | _ => rfl

/-- and so does a body without any. -/
theorem MethodBody.reread_of_floatFree {b : MethodBody} (h : ∀ i ∈ b.arena, i.isFloat = false) :
    b.reread = some b := by
  rw [reread, mapM_eq_self fun i hi => Instruction.reread_of_floatFree (h i hi)]
  rfl

/-- **A module without floating-point constants comes back as it is.**  Every other constant is
written exactly. -/
theorem Module.reread_of_floatFree {m : Module} (h : m.FloatFree) : m.reread = some m := by
  have hmethod : ∀ t ∈ m.types, ∀ method ∈ t.methods, method.reread = some method := by
    intro t ht method hmethod
    rw [MethodDef.reread]
    cases hbody : method.body with
    | none => exact congrArg (fun body => some { method with body }) hbody.symm
    | some b =>
        have hb := MethodBody.reread_of_floatFree
          (h b (mem_bodies_iff.mpr ⟨t, ht, method, hmethod, hbody⟩))
        rw [Option.mapM, hb]
        exact congrArg (fun body => some { method with body }) hbody.symm
  have htype : ∀ t ∈ m.types, t.reread = some t := by
    intro t ht
    rw [TypeDef.reread, mapM_eq_self (hmethod t ht)]
    rfl
  rw [reread, mapM_eq_self htype]
  rfl

/-! ### Computed stack sizes -/

namespace Image

/-- A change of items that keeps their depth keeps that of the list. -/
theorem depth_list_map {α : Type} {encode : α → Json} {f : α → α} {items : List α}
    (h : ∀ a ∈ items, (encode (f a)).depth = (encode a).depth) :
    (Json.list encode (items.map f)).depth = (Json.list encode items).depth := by
  rw [Json.list, Json.list, Json.depth, Json.depth]
  refine congrArg (· + 1) ?_
  induction items with
  | nil => rfl
  | cons a items ih =>
      rw [List.map_cons, List.map_cons, List.map_cons, Json.depthItems, Json.depthItems,
        h a List.mem_cons_self, ih fun a ha => h a (List.mem_cons_of_mem _ ha)]

/-- A visit that keeps the depth of bodies keeps that of a method, -/
theorem depth_visitBody {α : Type} {f : MethodBody → MethodBody × α}
    (hf : ∀ b, (f b).1.toJson.depth = b.toJson.depth) (m : MethodDef) :
    (m.visitBody f).1.toJson.depth = m.toJson.depth := by
  rw [MethodDef.visitBody]
  cases hbody : m.body with
  | none => rfl
  | some body =>
      have hoptional : (Json.optional MethodBody.toJson (some (f body).1)).depth =
          (Json.optional MethodBody.toJson (some body)).depth := hf body
      simp only [MethodDef.toJson, hbody, Json.depth_fields, List.map_cons, List.map_nil,
        Json.depthMembers, hoptional]

/-- and that of a type. -/
theorem depth_visitBodies {α : Type} {f : MethodDef → MethodBody → MethodBody × α}
    (hf : ∀ m b, (f m b).1.toJson.depth = b.toJson.depth) (t : TypeDef) :
    (t.visitBodies f).1.toJson.depth = t.toJson.depth := by
  have hmethods : (Json.list MethodDef.toJson (t.visitBodies f).1.methods).depth =
      (Json.list MethodDef.toJson t.methods).depth := by
    rw [TypeDef.visitBodies, List.map_map]
    exact depth_list_map fun m _ => depth_visitBody (hf m) m
  simp only [TypeDef.toJson, Json.depth_fields, List.map_cons, List.map_nil, Json.depthMembers,
    hmethods]
  rfl

/-- **Computed stack sizes take the same room** in a document: they are numbers in place of
numbers. -/
theorem depth_withComputedStacks (m : Module) :
    (document (withComputedStacks m)).depth = (document m).depth := by
  have htypes : (Json.list TypeDef.toJson (withComputedStacks m).types).depth =
      (Json.list TypeDef.toJson m.types).depth := by
    rw [withComputedStacks, Module.mapBodies, Module.visitBodies, List.map_map]
    exact depth_list_map fun t _ => depth_visitBodies (fun _ _ => rfl) t
  simp only [document, Module.toJson, Json.depth_fields, List.map_cons, List.map_nil,
    Json.depthMembers, htypes]
  rfl

/-- The bodies are the same but for that number, -/
theorem bodies_withComputedStacks (m : Module) :
    (withComputedStacks m).bodies =
      m.bodies.map fun b => { b with maxStack := b.computeMaxStack } := by
  rw [withComputedStacks, Module.mapBodies, Module.bodies_visitBodies, Module.bodies_eq_map_entries,
    List.map_map]
  rfl

/-- they stay valid, -/
theorem arenasValid_withComputedStacks {m : Module} (h : m.ArenasValid) :
    (withComputedStacks m).ArenasValid := by
  intro b hb
  rw [bodies_withComputedStacks] at hb
  obtain ⟨b, hmem, rfl⟩ := List.mem_map.mp hb
  exact ⟨(h b hmem).slot_lt, (h b hmem).nodup⟩

/-- and they get no constants. -/
theorem floatFree_withComputedStacks {m : Module} (h : m.FloatFree) :
    (withComputedStacks m).FloatFree := by
  intro b hb
  rw [bodies_withComputedStacks] at hb
  obtain ⟨b, hmem, rfl⟩ := List.mem_map.mp hb
  exact h b hmem

/-- What is written of a module is read again. -/
theorem parse_encode_prepared (options : WriterOptions) {m : Module}
    (hvalid : (prepared options m).ArenasValid) (hfree : (prepared options m).FloatFree)
    (hdepth : (document (prepared options m)).depth ≤ documentRoom) :
    parse (utf8 (encode options m)) = .ok (prepared options m) := by
  rw [parse_encode options m hdepth, Module.reread_of_floatFree hfree]
  dsimp only
  rw [fault?_eq_none_iff.mpr hvalid]

/-- **A module is read from its image as it was written.**  Its bodies are valid, no slot of them
holds a floating-point constant, and its document nests no deeper than a reader allows; names, texts
and flags are arbitrary.  If the stack sizes are computed anew, nothing else changes.  The layout of
the text makes no difference. -/
theorem parse_encode_floatFree (m : Module) (hvalid : m.ArenasValid) (hfree : m.FloatFree)
    (hdepth : (document m).depth ≤ 127) (pretty : Bool) :
    parse (utf8 (encode ⟨true, pretty⟩ m)) = .ok m ∧
      parse (utf8 (encode ⟨false, pretty⟩ m)) =
        .ok (m.mapBodies fun b => { b with maxStack := b.computeMaxStack }) := by
  refine ⟨parse_encode_prepared ⟨true, pretty⟩ hvalid hfree hdepth, ?_⟩
  refine parse_encode_prepared ⟨false, pretty⟩ (arenasValid_withComputedStacks hvalid)
    (floatFree_withComputedStacks hfree) ?_
  exact (depth_withComputedStacks m).trans_le hdepth

/-- A module with names that have to be escaped, flags without a name, a handler, a nested signature
and a dead slot. -/
def oddlyNamedModule : Module where
  name := "say \"hi\"\\ \n\x01 \u00e9 \u4e16"
  types :=
    [{ TypeDef.new ⟨1⟩ "A.B" "\t" with
        flags := ⟨0xFFFF1003⟩
        base := some ""
        attributes := [⟨"| 0x"⟩]
        methods :=
          [{ MethodDef.new ⟨2⟩ "f" with
              access := ⟨3⟩
              modifiers := ⟨0x8010⟩
              params := [⟨"p", .array (.array (.named "null"))⟩]
              body := some
                { arena :=
                    [⟨.ldstr, .text "\r\x0c", 0⟩, ⟨.switch, .switch [⟨0⟩, ⟨9⟩], 5⟩,
                      ⟨.ldcI8, .immediate (.int64 (-1)), 14⟩, ⟨.ret, .absent, 23⟩]
                  order := [⟨0⟩, ⟨1⟩, ⟨3⟩]
                  locals := [⟨none, .i4⟩, ⟨some "x", .array .string⟩]
                  handlers := [.catching ⟨0⟩ ⟨1⟩ ⟨3⟩ none "E"]
                  maxStack := 300
                  initLocals := true } },
            .new ⟨3⟩ "g"] }]
  entryPoint := some ⟨7⟩

theorem oddlyNamedModule_read_back :
    parse (utf8 (encode ⟨true, true⟩ oddlyNamedModule)) = .ok oddlyNamedModule ∧
      parse (utf8 (encode ⟨false, true⟩ oddlyNamedModule)) =
        .ok (oddlyNamedModule.mapBodies fun b => { b with maxStack := b.computeMaxStack }) :=
  parse_encode_floatFree oddlyNamedModule (by unfold Module.ArenasValid; decide)
    (by unfold Module.FloatFree; decide) (by decide) true

end Image

end CilRepair
