import CilRepair.Names.ChaCha
import CilRepair.Proofs.Lists
import CilRepair.Proofs.StageContexts

/-!
# Methods that stay protected

A method that may not be changed is protected by what it is, by its names, by its code, or by marks:
attributes whose names say that it is used from outside.  The built-in stages keep all of it but the
marks.  Renaming also renames the types of attributes, and then a mark may no longer be one.

* `CustomAttribute.marksMethod`, `CustomAttribute.marksType` — the attributes that protect.
* `MethodBody.code` — the opcodes without padding, which removal of padding does not change.
* `ProtectedLike`, `ProtectedLike.isEligible_eq_false` — what has to be kept for protection to last.
* `MarksKept` — no type that is about to be renamed is a mark of the method or of its type.
* `protectedLike_rename`, `protectedLike_fold`, `protectedLike_removePadding` — stage by stage.
* `protection_survives_stages` — any sequence of stages, if each renaming meets kept marks.
* `markedContext_loses_protection` — a mark that is renamed, and a method folded after it.

## Design notes

Protection is a test with many alternatives, each of which looks at something else.  `ProtectedLike`
lists what they look at, so that a stage shows what it keeps and never which alternative held; that
the test then still succeeds is one lemma, `isEligible_eq_false`.  Marks are compared one way only:
those that were there must be found again, and new ones do no harm.

What is kept of the code is the list of opcodes without padding.  Removal of padding deletes from
the sequence and cannot be stated place by place, and all that protection asks of code is counts.

The hypothesis on marks is about the contexts in which renaming runs and not about the first one
alone, for a stage before it may have changed what the attributes name.
-/

namespace CilRepair

/-! ### Code without padding -/

namespace MethodBody

variable (b : MethodBody)

/-- The opcodes of the sequence. -/
def opcodes : List OpCode := b.order.filterMap fun id => (b.get? id).map (·.opcode)

/-- **The opcodes of the sequence without padding.** -/
def code : List OpCode := b.opcodes.filter (· != .nop)

theorem opcodes_eq_map : b.opcodes = b.instructions.map (·.opcode) := by
  rw [opcodes, instructions, List.map_filterMap]

/-- A test that padding does not pass sees only the code. -/
theorem filter_ne_nop {q : OpCode → Bool} (h : q .nop = false) (op : OpCode) :
    (q op && op != .nop) = q op := by
  by_cases hop : op = .nop
  · rw [hop, h]
    rfl
  · rw [bne_iff_ne.mpr hop, Bool.and_true]

/-- Padding is no branch, so branches are counted in the code. -/
theorem branchCount_eq : b.branchCount = b.code.countP OpCode.isBranch := by
  rw [code, List.countP_filter, opcodes_eq_map, List.countP_map, branchCount]
  refine List.countP_congr fun i _ => ?_
  rw [Function.comp_apply, filter_ne_nop rfl]
  rfl

/-- Nor is it a table. -/
theorem hasSwitch_eq : b.hasSwitch = b.code.any (· == .switch) := by
  rw [code, List.any_filter, opcodes_eq_map, List.any_map, hasSwitch]
  refine congrArg b.instructions.any (funext fun i => ?_)
  rw [Function.comp_apply, Bool.and_comm, filter_ne_nop (q := (· == .switch)) rfl]
  rfl

/-- A remapping keeps every opcode, in whatever order the body names its slots. -/
theorem opcode_get?_remap (m : Remapping) (id : InstrId) :
    ((b.remap m).1.get? id).map (·.opcode) = (b.get? id).map (·.opcode) := by
  have harena : (b.remap m).1.arena.map (·.opcode) = b.arena.map (·.opcode) :=
    map_sweep (remapStep m) (·.opcode) (fun _ _ _ => rfl) b.order b.arena 0
  rw [get?, get?, ← List.getElem?_map, harena, List.getElem?_map]

/-- **Removal of padding keeps the code.**  What goes is a `nop`, and a `nop` is what the code
leaves out. -/
theorem code_removeNops : b.removeNops.1.code = b.code := by
  have hopcode := b.opcode_get?_remap (redirects b.live).1
  rw [code, opcodes, code, opcodes, List.filter_filterMap, List.filter_filterMap, removeNops,
    removeWhere, List.filterMap_filter, order_remap]
  refine List.filterMap_congr fun id _ => ?_
  rw [← hopcode id]
  change (if _ then (((b.remap (redirects b.live).1).1.get? id).map _).filter _ else none) = _
  cases hget : (b.remap (redirects b.live).1).1.get? id with
  | none => rfl
  | some i =>
      by_cases hkeep :
          (!(i.isNop && !(b.remap (redirects b.live).1).1.references.contains id)) = true
      · exact if_pos hkeep
      · have hnop : i.opcode = .nop := by
          cases hi : i.isNop with
          | true => simpa [Instruction.isNop] using hi
          | false => simp [hi] at hkeep
        rw [Option.map_some, hnop]
        exact if_neg hkeep

end MethodBody

/-! ### What protects a method -/

/-- The attribute protects a method that carries it. -/
def CustomAttribute.marksMethod (a : CustomAttribute) : Bool :=
  protectedAttributes.any (containsText · a.shortName)
    || (exportAttributes ++ visibleMethodAttributes).any (containsText · a.typeName)

/-- The attribute protects the public methods of a public type that carries it. -/
def CustomAttribute.marksType (a : CustomAttribute) : Bool :=
  visibleTypeAttributes.any (containsText · a.typeName)

/-- The answer for the method at a place, if there is one. -/
def Thresholds.eligibleAt? (limits : Thresholds) (m : Module) (location : MethodLocation) :
    Option Bool :=
  (m.at? location).map fun (t, method) => limits.isEligible m t method

/-- **A method is protected like another,** in its type like that one in its own: what it is, its
names, its code and its marks are the same, or more marks have come. -/
structure ProtectedLike (t : TypeDef) (m : MethodDef) (t' : TypeDef) (m' : MethodDef) : Prop where
  token : m'.token = m.token
  name : m'.name = m.name
  paramNames : m'.params.map (·.name) = m.params.map (·.name)
  access : m'.access = m.access
  modifiers : m'.modifiers = m.modifiers
  flags : t'.flags = t.flags
  startShape : m.isMain = true → m'.isMain = true
  code : m'.body.map (·.code) = m.body.map (·.code)
  handlers : m'.body.map (·.handlers.length) = m.body.map (·.handlers.length)
  methodMarks : ∀ a ∈ m.attributes, a.marksMethod = true → a ∈ m'.attributes
  typeMarks : ∀ a ∈ t.attributes, a.marksType = true → a ∈ t'.attributes

namespace ProtectedLike

variable {limits : Thresholds} {module module' : Module} {t t' t'' : TypeDef}
  {m m' m'' : MethodDef}

theorem refl (t : TypeDef) (m : MethodDef) : ProtectedLike t m t m :=
  ⟨rfl, rfl, rfl, rfl, rfl, rfl, id, rfl, rfl, fun _ ha _ => ha, fun _ ha _ => ha⟩

/-- Two stages in a row.  Marks that were found after the first are found after the second. -/
theorem trans (h : ProtectedLike t m t' m') (h' : ProtectedLike t' m' t'' m'') :
    ProtectedLike t m t'' m'' where
  token := h'.token.trans h.token
  name := h'.name.trans h.name
  paramNames := h'.paramNames.trans h.paramNames
  access := h'.access.trans h.access
  modifiers := h'.modifiers.trans h.modifiers
  flags := h'.flags.trans h.flags
  startShape hmain := h'.startShape (h.startShape hmain)
  code := h'.code.trans h.code
  handlers := h'.handlers.trans h.handlers
  methodMarks a ha hmark := h'.methodMarks a (h.methodMarks a ha hmark) hmark
  typeMarks a ha hmark := h'.typeMarks a (h.typeMarks a ha hmark) hmark

/-- Whether a method is complex is settled by its code.  The limits count branches and look for a
table, and no built-in stage adds or takes either. -/
theorem isComplex_eq (h : ProtectedLike t m t' m') : limits.isComplex m' = limits.isComplex m := by
  have hcode := h.code
  have hhandlers := h.handlers
  rw [Thresholds.isComplex, Thresholds.isComplex]
  cases hbody : m.body with
  | none =>
      rw [hbody, Option.map_none, Option.map_eq_none_iff] at hcode
      rw [hcode]
  | some body =>
      rw [hbody, Option.map_some, Option.map_eq_some_iff] at hcode hhandlers
      obtain ⟨body', hbody', hcode⟩ := hcode
      obtain ⟨_, hsame, hlength⟩ := hhandlers
      obtain rfl : body' = _ := Option.some.inj (hbody'.symm.trans hsame)
      have hempty : body'.handlers.isEmpty = body.handlers.isEmpty := by
        rw [Bool.eq_iff_iff, List.isEmpty_iff_length_eq_zero, List.isEmpty_iff_length_eq_zero,
          hlength]
      simp only [hbody', MethodBody.branchCount_eq, MethodBody.hasSwitch_eq, hcode, hempty]

/-- A mark of the method that is found in one of its names is found again.  The view of the
attribute is a parameter, since some marks are found by the short name and some by the full one. -/
theorem any_attribute (h : ProtectedLike t m t' m') {fragments : List String}
    {view : CustomAttribute → String}
    (hmark : ∀ a fragment, fragment ∈ fragments → containsText fragment (view a) = true →
      a.marksMethod = true)
    (hfound : (fragments.any fun fragment =>
      m.attributes.any fun a => containsText fragment (view a)) = true) :
    (fragments.any fun fragment =>
      m'.attributes.any fun a => containsText fragment (view a)) = true := by
  obtain ⟨fragment, hfragment, hany⟩ := List.any_eq_true.mp hfound
  obtain ⟨a, ha, hcontains⟩ := List.any_eq_true.mp hany
  have ha' := h.methodMarks a ha (hmark a fragment hfragment hcontains)
  exact List.any_eq_true.mpr ⟨fragment, hfragment, List.any_eq_true.mpr ⟨a, ha', hcontains⟩⟩

/-- The same for the marks of the type, which are found by their full name. -/
theorem any_typeAttribute (h : ProtectedLike t m t' m')
    (hfound : (visibleTypeAttributes.any (hasFullName t.attributes)) = true) :
    (visibleTypeAttributes.any (hasFullName t'.attributes)) = true := by
  obtain ⟨fragment, hfragment, hany⟩ := List.any_eq_true.mp hfound
  obtain ⟨a, ha, hcontains⟩ := List.any_eq_true.mp hany
  have hmark : a.marksType = true := List.any_eq_true.mpr ⟨fragment, hfragment, hcontains⟩
  exact List.any_eq_true.mpr
    ⟨fragment, hfragment, List.any_eq_true.mpr ⟨a, h.typeMarks a ha hmark, hcontains⟩⟩

/-- An attribute with one of these short names marks a method, -/
theorem marksMethod_of_shortName (a : CustomAttribute) (fragment : String)
    (hfragment : fragment ∈ protectedAttributes)
    (hcontains : containsText fragment a.shortName = true) : a.marksMethod = true := by
  rw [CustomAttribute.marksMethod, Bool.or_eq_true]
  exact Or.inl (List.any_eq_true.mpr ⟨fragment, hfragment, hcontains⟩)

/-- and so does one with one of these full names. -/
theorem marksMethod_of_fullName (a : CustomAttribute) (fragment : String)
    (hfragment : fragment ∈ exportAttributes ++ visibleMethodAttributes)
    (hcontains : containsText fragment a.typeName = true) : a.marksMethod = true := by
  rw [CustomAttribute.marksMethod, Bool.or_eq_true]
  exact Or.inr (List.any_eq_true.mpr ⟨fragment, hfragment, hcontains⟩)

/-- What is called from outside remains so: by its token, as a start of the program, or by a
mark. -/
theorem isEntryPoint (h : ProtectedLike t m t' m')
    (hstart : module'.entryPoint = module.entryPoint)
    (hentry : module.isEntryPoint t m = true) : module'.isEntryPoint t' m' = true := by
  rw [Module.isEntryPoint, hstart, h.token, MethodDef.isPublic, h.access, TypeDef.isPublic, h.flags]
  simp only [Module.isEntryPoint, Bool.or_eq_true, Bool.and_eq_true] at hentry ⊢
  rcases hentry with ((hstarted | hmain) | hexported) | ⟨hpublic, hvisible⟩
  · exact Or.inl (Or.inl (Or.inl hstarted))
  · exact Or.inl (Or.inl (Or.inr (h.startShape hmain)))
  · refine Or.inl (Or.inr (h.any_attribute (fun a fragment hfragment => ?_) hexported))
    exact marksMethod_of_fullName a fragment (List.mem_append_left _ hfragment)
  · refine Or.inr ⟨hpublic, ?_⟩
    rcases hvisible with hvisible | hvisible
    · exact Or.inl (h.any_typeAttribute hvisible)
    · refine Or.inr (h.any_attribute (fun a fragment hfragment => ?_) hvisible)
      exact marksMethod_of_fullName a fragment (List.mem_append_right _ hfragment)

/-- **What is protected like a protected method is protected.**  By cases on what protected it; each
case asks for one of the things that are kept. -/
theorem isEligible_eq_false (h : ProtectedLike t m t' m')
    (hstart : module'.entryPoint = module.entryPoint)
    (hprotected : limits.isEligible module t m = false) :
    limits.isEligible module' t' m' = false := by
  have hbody : m'.body.isNone = m.body.isNone := by
    have hcode := congrArg Option.isNone h.code
    rwa [Option.isNone_map, Option.isNone_map] at hcode
  have hspecial : m'.isSpecialName = m.isSpecialName := congrArg (·.intersects 0x1800) h.modifiers
  have habstract : m'.isAbstract = m.isAbstract := congrArg (·.intersects 0x400) h.modifiers
  have hvirtual : m'.isVirtual = m.isVirtual := congrArg (·.intersects 0x40) h.modifiers
  have hconstructor : m'.isConstructor = m.isConstructor :=
    congrArg (fun name => name == ".ctor" || name == ".cctor") h.name
  rw [Thresholds.isEligible, Bool.not_eq_false', Bool.or_eq_true, Bool.or_eq_true] at hprotected ⊢
  rw [hspecial, hconstructor, hbody, habstract, hvirtual, h.name, h.isComplex_eq]
  rcases hprotected with (hother | hmarked) | hentry
  · exact Or.inl (Or.inl hother)
  · exact Or.inl (Or.inr (h.any_attribute marksMethod_of_shortName hmarked))
  · exact Or.inr (h.isEntryPoint hstart hentry)

end ProtectedLike

/-! ### Methods by place -/

namespace Module

variable {m m' : Module} {location : MethodLocation} {t t' : TypeDef} {method method' : MethodDef}

/-- **A method at a place** is the method with that number in the type with that number. -/
theorem at?_eq_some_iff :
    m.at? location = some (t, method) ↔
      m.types[location.typeIndex]? = some t ∧ t.methods[location.methodIndex]? = some method := by
  simp only [at?, Option.bind_eq_bind, Option.bind_eq_some_iff, Option.pure_def, Option.some.injEq,
    Prod.mk.injEq]
  constructor
  · rintro ⟨_, htype, _, hmethod, rfl, rfl⟩
    exact ⟨htype, hmethod⟩
  · rintro ⟨htype, hmethod⟩
    exact ⟨t, htype, method, hmethod, rfl, rfl⟩

/-- A pass over bodies changes the body at each place and nothing else there. -/
theorem at?_visitBodies {α : Type} (f : TypeDef → MethodDef → MethodBody → MethodBody × α)
    (h : m.at? location = some (t, method)) :
    (m.visitBodies f).1.at? location =
      some ((t.visitBodies (f t)).1, (method.visitBody (f t method)).1) := by
  obtain ⟨htype, hmethod⟩ := at?_eq_some_iff.mp h
  have htypes : (m.visitBodies f).1.types = m.types.map fun t => (t.visitBodies (f t)).1 :=
    List.map_map
  have hmethods : (t.visitBodies (f t)).1.methods =
      t.methods.map fun method => (method.visitBody (f t method)).1 := List.map_map
  rw [at?_eq_some_iff, htypes, List.getElem?_map, htype, hmethods, List.getElem?_map, hmethod]
  exact ⟨rfl, rfl⟩

/-- References are replaced in the type and in the method. -/
theorem at?_mapReferences (f : String → String) (h : m.at? location = some (t, method)) :
    (m.mapReferences f).at? location = some (t.mapReferences f, method.mapReferences f) := by
  obtain ⟨htype, hmethod⟩ := at?_eq_some_iff.mp h
  rw [at?_eq_some_iff, mapReferences, List.getElem?_map, htype]
  refine ⟨rfl, ?_⟩
  rw [TypeDef.mapReferences, List.getElem?_map, hmethod]
  rfl

end Module

/-- A renaming changes names at each place by what it has for that place. -/
theorem Renaming.at?_apply (r : Renaming) {m : Module} {location : MethodLocation} {t : TypeDef}
    {method : MethodDef} (h : m.at? location = some (t, method)) :
    (r.apply m).at? location =
      some (r.applyToType location.typeIndex t, r.applyToMethod location method) := by
  obtain ⟨htype, hmethod⟩ := Module.at?_eq_some_iff.mp h
  rw [Module.at?_eq_some_iff, apply, List.getElem?_mapIdx, htype]
  refine ⟨rfl, ?_⟩
  rw [applyToType, List.getElem?_mapIdx, hmethod]
  rfl

/-! ### Renaming -/

section Renaming

variable {limits : Thresholds} {m : Module} {location : MethodLocation}

/-- A method that was dealt a name is one of those that were to get one.  By induction on the
methods, for as long as names are left. -/
theorem fst_mem_of_mem_dealMethods {methods : List (MethodLocation × Nat)} {names : List String}
    {entry : MethodLocation × MethodRenaming} (h : entry ∈ dealMethods methods names) :
    entry.1 ∈ methods.map Prod.fst := by
  induction methods generalizing names with
  | nil => simp [dealMethods] at h
  | cons head rest ih =>
      obtain ⟨location, count⟩ := head
      cases names with
      | nil => simp [dealMethods] at h
      | cons name names =>
          rcases List.mem_cons.mp h with rfl | h
          · exact List.mem_cons_self
          · exact List.mem_cons_of_mem _ (ih h)

/-- The renaming of a module, with names dealt out to all that may be renamed. -/
def renamingOf (limits : Thresholds) (m : Module) (names : List String) : Renaming :=
  .deal (renamableTypes m) ((renamableMethods limits m).map fun l => (l, paramCount m l)) names

/-- A protected method gets no new name. -/
theorem lookup_methods_renamingOf (h : limits.eligibleAt? m location = some false)
    (names : List String) : (renamingOf limits m names).methods.lookup location = none := by
  refine lookup_eq_none_of_notMem fun hkey => ?_
  obtain ⟨entry, hentry, rfl⟩ := List.mem_map.mp hkey
  have hkey := fst_mem_of_mem_dealMethods hentry
  rw [List.map_map] at hkey
  obtain ⟨location, hrenamable, hsame⟩ := List.mem_map.mp hkey
  have hrenamable := (List.mem_filter.mp hrenamable).2
  obtain rfl : location = entry.1 := hsame
  obtain ⟨⟨t, method⟩, hat, hprotected⟩ := Option.map_eq_some_iff.mp h
  rw [isRenamableAt, hat] at hrenamable
  simp [hprotected] at hrenamable

/-- A type that is listed as one that may be renamed is there and may be renamed. -/
theorem exists_of_mem_renamableTypes {index : Nat} (h : index ∈ renamableTypes m) :
    ∃ t, m.types[index]? = some t ∧ m.isRenamable t = true := by
  obtain ⟨⟨t, n⟩, hentry, hsome⟩ := List.mem_filterMap.mp h
  dsimp only at hsome
  split at hsome
  · next hrenamable =>
      obtain rfl := Option.some.inj hsome
      exact ⟨t, List.mk_mem_zipIdx_iff_getElem?.mp hentry, hrenamable⟩
  · exact absurd hsome (by simp)

/-- **A reference stays** if it names no type that may be renamed.  The look-up goes by the full
names that these types had before. -/
theorem substitution_of_not_renamable {reference : String}
    (h : ∀ t ∈ m.types, m.isRenamable t = true → t.fullName ≠ reference) (names : List String) :
    (renamingOf limits m names).substitution m reference = reference := by
  have hnone : ((renamingOf limits m names).fullNames m).reverse.lookup reference = none := by
    refine lookup_eq_none_of_notMem fun hkey => ?_
    obtain ⟨entry, hentry, rfl⟩ := List.mem_map.mp hkey
    obtain ⟨⟨index, name⟩, hindex, hsome⟩ := List.mem_filterMap.mp (List.mem_reverse.mp hentry)
    obtain ⟨t, htype, rfl⟩ := Option.map_eq_some_iff.mp hsome
    obtain ⟨t', htype', hrenamable⟩ := exists_of_mem_renamableTypes (List.of_mem_zip hindex).1
    obtain rfl : t = t' := Option.some.inj (htype.symm.trans htype')
    exact h t (List.mem_of_getElem? htype) hrenamable rfl
  rw [Renaming.substitution, hnone, Option.getD_none]

end Renaming

/-- **The marks of a method are kept** by a renaming: they name no type that may be renamed. -/
def MarksKept (m : Module) (location : MethodLocation) : Prop :=
  ∀ t method, m.at? location = some (t, method) →
    ∀ a, a ∈ method.attributes ∧ a.marksMethod = true ∨ a ∈ t.attributes ∧ a.marksType = true →
      ∀ other ∈ m.types, m.isRenamable other = true → other.fullName ≠ a.typeName

/-! ### Stage by stage -/

section Stages

theorem TypeSig.mapName_beq_void (f : String → String) (sig : TypeSig) :
    (sig.mapName f == .void) = (sig == .void) := by
  cases sig <;> rfl

theorem TypeSig.mapName_beq_i4 (f : String → String) (sig : TypeSig) :
    (sig.mapName f == .i4) = (sig == .i4) := by
  cases sig <;> rfl

theorem TypeSig.isStringArray_mapName (f : String → String) (sig : TypeSig) :
    (sig.mapName f).isStringArray = sig.isStringArray := by
  cases sig with
  | array element => cases element <;> rfl
  | _ => rfl

/-- References do not make a start of a program, or unmake one: what is asked about types there is
whether they are keywords or arrays of strings. -/
theorem MethodDef.isMain_mapReferences (f : String → String) (m : MethodDef) :
    (m.mapReferences f).isMain = m.isMain := by
  rcases m with ⟨token, name, access, modifiers, params, result, attributes, body⟩
  simp only [isMain, mapReferences, isStatic, TypeSig.mapName_beq_void, TypeSig.mapName_beq_i4]
  match params with
  | [] => rfl
  | [arguments] =>
      simp only [List.map_cons, List.map_nil, Param.mapReference, TypeSig.isStringArray_mapName]
  | _ :: _ :: _ => rfl

/-- A mark that a replacement of references keeps is still there. -/
theorem mem_map_mapName {f : String → String} {attributes : List CustomAttribute}
    {a : CustomAttribute} (ha : a ∈ attributes) (hkept : f a.typeName = a.typeName) :
    a ∈ attributes.map (·.mapName f) := by
  refine List.mem_map.mpr ⟨a, ha, ?_⟩
  rw [CustomAttribute.mapName, hkept]

/-- A replacement of references that keeps the marks keeps all that protects a method.  Marks are
found by the names of attributes, which are references; nothing else that protects is one. -/
theorem protectedLike_mapReferences {f : String → String} {t : TypeDef} {m : MethodDef}
    (hmarks : ∀ a, a ∈ m.attributes ∧ a.marksMethod = true ∨
      a ∈ t.attributes ∧ a.marksType = true → f a.typeName = a.typeName) :
    ProtectedLike t m (t.mapReferences f) (m.mapReferences f) where
  token := rfl
  name := rfl
  paramNames := List.map_map
  access := rfl
  modifiers := rfl
  flags := rfl
  startShape hmain := (m.isMain_mapReferences f).trans hmain
  code := by
    rw [MethodDef.mapReferences, Option.map_map]
    rfl
  handlers := by
    rw [MethodDef.mapReferences, Option.map_map]
    rfl
  methodMarks a ha hmark := mem_map_mapName ha (hmarks a (Or.inl ⟨ha, hmark⟩))
  typeMarks a ha hmark := mem_map_mapName ha (hmarks a (Or.inr ⟨ha, hmark⟩))

variable {σ : Type} {c : StageContext σ} {location : MethodLocation} {t : TypeDef}
  {m : MethodDef}

/-- **Renaming leaves a protected method protected** if it keeps its marks.  It gets no new name,
being protected, and its marks are found by names that are still theirs. -/
theorem protectedLike_rename [DrawSource σ] (hat : c.module.at? location = some (t, m))
    (hprotected : c.limits.eligibleAt? c.module location = some false)
    (hmarks : MarksKept c.module location) :
    ∃ t' m', (renameModule c).context.module.at? location = some (t', m') ∧
      ProtectedLike t m t' m' := by
  rw [renameModule]
  dsimp only
  split
  · exact ⟨t, m, hat, .refl t m⟩
  · next names _ _ =>
      have happlied := (renamingOf c.limits c.module names).at?_apply hat
      have hsame : (renamingOf c.limits c.module names).applyToMethod location m = m := by
        rw [Renaming.applyToMethod, lookup_methods_renamingOf hprotected]
      rw [hsame] at happlied
      refine ⟨_, _, Module.at?_mapReferences _ happlied, ?_⟩
      have hkept : ProtectedLike t m
          (t.mapReferences ((renamingOf c.limits c.module names).substitution c.module))
          (m.mapReferences ((renamingOf c.limits c.module names).substitution c.module)) :=
        protectedLike_mapReferences fun a ha =>
          substitution_of_not_renamable (hmarks t m hat a ha) names
      exact ⟨hkept.token, hkept.name, hkept.paramNames, hkept.access, hkept.modifiers, hkept.flags,
        hkept.startShape, hkept.code, hkept.handlers, hkept.methodMarks, hkept.typeMarks⟩

/-- **Folding does not touch a protected method.**  It asks about each method before it visits the
body. -/
theorem protectedLike_fold (hat : c.module.at? location = some (t, m))
    (hprotected : c.limits.eligibleAt? c.module location = some false) :
    ∃ t' m', (foldModule c).context.module.at? location = some (t', m') ∧
      ProtectedLike t m t' m' := by
  have hineligible : c.limits.isEligible c.module t m = false := by
    rw [Thresholds.eligibleAt?, hat] at hprotected
    exact Option.some.inj hprotected
  have hsame : (m.visitBody (foldEligible c.limits c.module t m)).1 = m := by
    rw [MethodDef.visitBody]
    cases hbody : m.body with
    | none => rfl
    | some b =>
        simp only [foldEligible, hineligible]
        rw [if_neg Bool.false_ne_true, ← hbody]
  refine ⟨_, _, Module.at?_visitBodies _ hat, ?_⟩
  rw [hsame]
  exact ⟨rfl, rfl, rfl, rfl, rfl, rfl, id, rfl, rfl, fun _ ha _ => ha, fun _ ha _ => ha⟩

/-- **Removal of padding keeps all that protects a method,** although it visits every body. -/
theorem protectedLike_removePadding (hat : c.module.at? location = some (t, m)) :
    ∃ t' m', (removePadding c).context.module.at? location = some (t', m') ∧
      ProtectedLike t m t' m' := by
  refine ⟨_, _, Module.at?_visitBodies (fun _ _ body => body.removeNops) hat, ?_⟩
  rcases m with ⟨token, name, access, modifiers, params, result, attributes, body⟩
  cases body with
  | none => exact ⟨rfl, rfl, rfl, rfl, rfl, rfl, id, rfl, rfl, fun _ ha _ => ha, fun _ ha _ => ha⟩
  | some b =>
      refine ⟨rfl, rfl, rfl, rfl, rfl, rfl, id, ?_, ?_, fun _ ha _ => ha, fun _ ha _ => ha⟩
      · exact congrArg some b.code_removeNops
      · change some (b.handlers.map _).length = some b.handlers.length
        rw [List.length_map]

/-- The built-in stages keep the limits and the declared start of the program. -/
theorem limits_entryPoint_of_builtin [DrawSource σ] {stage : Stage σ} (h : stage ∈ builtinStages)
    (c : StageContext σ) :
    (stage.apply c).context.limits = c.limits ∧
      (stage.apply c).context.module.entryPoint = c.module.entryPoint := by
  simp only [builtinStages, List.mem_cons, List.not_mem_nil, or_false] at h
  rcases h with rfl | rfl | rfl
  · change (renameModule c).context.limits = _ ∧ (renameModule c).context.module.entryPoint = _
    rw [renameModule]
    dsimp only
    split <;> exact ⟨rfl, rfl⟩
  · exact ⟨rfl, rfl⟩
  · exact ⟨rfl, rfl⟩

/-- **One stage keeps protection,** if it is no renaming that takes marks away.  This is the step of
the induction over stages. -/
theorem protectedLike_of_builtin [DrawSource σ] {stage : Stage σ} (h : stage ∈ builtinStages)
    (hat : c.module.at? location = some (t, m))
    (hprotected : c.limits.eligibleAt? c.module location = some false)
    (hmarks : stage = renameStage → MarksKept c.module location) :
    ∃ t' m', (stage.apply c).context.module.at? location = some (t', m') ∧
      ProtectedLike t m t' m' := by
  simp only [builtinStages, List.mem_cons, List.not_mem_nil, or_false] at h
  rcases h with rfl | rfl | rfl
  · exact protectedLike_rename hat hprotected (hmarks rfl)
  · exact protectedLike_fold hat hprotected
  · exact protectedLike_removePadding hat

end Stages

/-! ### Sequences of stages -/

section Sequence

variable {σ : Type} {stages : List (Stage σ)} {c : StageContext σ} {location : MethodLocation}
  {t : TypeDef} {m : MethodDef}

/-- A method that was protected at the beginning, in the context that a later stage meets. -/
structure StillProtected (c : StageContext σ) (location : MethodLocation) (t : TypeDef)
    (m : MethodDef) (later : StageContext σ) : Prop where
  limits : later.limits = c.limits
  entryPoint : later.module.entryPoint = c.module.entryPoint
  like : ∃ t' m', later.module.at? location = some (t', m') ∧ ProtectedLike t m t' m'

/-- A method that is still protected may still not be changed. -/
theorem StillProtected.eligibleAt? {later : StageContext σ}
    (h : StillProtected c location t m later) (hat : c.module.at? location = some (t, m))
    (hprotected : c.limits.eligibleAt? c.module location = some false) :
    later.limits.eligibleAt? later.module location = some false := by
  obtain ⟨t', m', hat', hlike⟩ := h.like
  rw [Thresholds.eligibleAt?, hat, Option.map_some, Option.some.injEq] at hprotected
  rw [Thresholds.eligibleAt?, hat', h.limits]
  exact congrArg some (hlike.isEligible_eq_false h.entryPoint hprotected)

/-- The context that no stage meets is the one that the last stage left. -/
theorem contextAt_of_none {n : ℕ} (h : stages[n]? = none) :
    contextAt stages c (n + 1) = contextAt stages c n := by
  rw [contextAt, contextAt, List.take_add_one, h, Option.toList_none, List.append_nil]

variable [DrawSource σ]

/-- **The context that any stage meets** still protects the method.  By induction on the stages, of
which only a renaming could take a mark away. -/
theorem stillProtected_contextAt (hbuiltin : ∀ stage ∈ stages, stage ∈ builtinStages)
    (hat : c.module.at? location = some (t, m))
    (hprotected : c.limits.eligibleAt? c.module location = some false)
    (hmarks : ∀ n, stages[n]? = some renameStage →
      MarksKept (contextAt stages c n).module location) (n : ℕ) :
    StillProtected c location t m (contextAt stages c n) := by
  induction n with
  | zero => exact ⟨rfl, rfl, t, m, hat, .refl t m⟩
  | succ n ih =>
      cases hstage : stages[n]? with
      | none =>
          rw [contextAt_of_none hstage]
          exact ih
      | some stage =>
          have hmem := hbuiltin stage (List.mem_of_getElem? hstage)
          obtain ⟨t', m', hat', hlike⟩ := ih.like
          obtain ⟨t'', m'', hat'', hlike'⟩ := protectedLike_of_builtin hmem hat'
            (ih.eligibleAt? hat hprotected) fun h => hmarks n (h ▸ hstage)
          obtain ⟨hlimits, hstart⟩ := limits_entryPoint_of_builtin hmem (contextAt stages c n)
          rw [(contextsMet_contextAt stages c).succ n stage hstage]
          exact ⟨hlimits.trans ih.limits, hstart.trans ih.entryPoint, t'', m'', hat'',
            hlike.trans hlike'⟩

/-- **Protection survives the built-in stages** where renaming meets kept marks.  Let any of the
stages run, in any order and repeatedly.  If a method may not be changed at the beginning, and if
whenever renaming runs no mark of it or of its type names a type that may be renamed, then it may
not be changed at any stage or at the end, and at the end its names and its code without padding are
what they were. -/
theorem protection_survives_stages (stages : List (Stage σ))
    (hbuiltin : ∀ stage ∈ stages, stage ∈ builtinStages) (c : StageContext σ)
    (location : MethodLocation)
    (hprotected : c.limits.eligibleAt? c.module location = some false)
    (hmarks : ∀ n, stages[n]? = some renameStage →
      MarksKept (contextAt stages c n).module location) :
    (∀ n, c.limits.eligibleAt? (contextAt stages c n).module location = some false) ∧
      c.limits.eligibleAt? (runStages stages c).context.module location = some false ∧
      ∃ t m t' m', c.module.at? location = some (t, m) ∧
        (runStages stages c).context.module.at? location = some (t', m') ∧
        m'.name = m.name ∧ m'.params.map (·.name) = m.params.map (·.name) ∧
        m'.body.map (·.code) = m.body.map (·.code) := by
  obtain ⟨⟨t, m⟩, hat, -⟩ := Option.map_eq_some_iff.mp hprotected
  have hstill := stillProtected_contextAt hbuiltin hat hprotected hmarks
  have heligible : ∀ n,
      c.limits.eligibleAt? (contextAt stages c n).module location = some false := by
    intro n
    rw [← (hstill n).limits]
    exact (hstill n).eligibleAt? hat hprotected
  have hend : contextAt stages c stages.length = (runStages stages c).context := by
    rw [contextAt, List.take_length]
  obtain ⟨t', m', hat', hlike⟩ := (hstill stages.length).like
  rw [hend] at hat'
  exact ⟨heligible, hend ▸ heligible stages.length, t, m, t', m', hat, hat', hlike.name,
    hlike.paramNames, hlike.code⟩

end Sequence

/-- A body that adds two literals. -/
def addingBody : MethodBody where
  arena :=
    [⟨.ldcI4 .short, .immediate (.int8 20), 0⟩, ⟨.ldcI4 .short, .immediate (.int8 22), 2⟩,
      ⟨.binary .add, .absent, 4⟩, ⟨.pop, .absent, 5⟩, ⟨.ret, .absent, 6⟩]
  order := (List.range 5).map fun n => ⟨UInt32.ofNat n⟩
  locals := []
  handlers := []
  maxStack := 8
  initLocals := false

/-- The context of a run whose module has a type `SerializeMark` and a method with some mark. -/
def markedContext (mark : String) : StageContext ChaCha :=
  PipelineConfig.context { source := .ofSeed 0 }
    { name := "sample"
      types :=
        [TypeDef.new ⟨1⟩ "" "SerializeMark",
          { TypeDef.new ⟨2⟩ "" "T" with
            methods :=
              [{ MethodDef.new ⟨3⟩ "f" with attributes := [⟨mark⟩], body := some addingBody }] }]
      entryPoint := none }

/-- The place of that method. -/
def markedMethod : MethodLocation := ⟨1, 0⟩

/-- A mark from outside the module is no type that may be renamed. -/
theorem marksKept_markedContext :
    MarksKept (markedContext "UnityEngine.SerializeField").module markedMethod := by
  intro t method hat a ha other hother _
  obtain ⟨rfl, rfl⟩ := Prod.mk.inj (Option.some.inj hat)
  have ha : a = ⟨"UnityEngine.SerializeField"⟩ := by
    rcases ha with ⟨ha, -⟩ | ⟨ha, -⟩
    · exact List.mem_singleton.mp ha
    · exact absurd ha List.not_mem_nil
  rw [ha]
  revert other
  decide

/-- Renaming is the first of the built-in stages and none of the others. -/
theorem eq_zero_of_renameStage {σ : Type} [DrawSource σ] {n : ℕ}
    (h : (builtinStages (σ := σ))[n]? = some renameStage) : n = 0 := by
  have hname := congrArg (Option.map Stage.name) h
  rw [← List.getElem?_map] at hname
  match n with
  | 0 => rfl
  | 1 | 2 | n + 3 => simp [builtinStages, renameStage, foldStage, nopStage] at hname

/-- A method that is marked from outside of its module stays as it is through all built-in
stages. -/
theorem markedContext_keeps_protection :
    (runStages builtinStages (markedContext "UnityEngine.SerializeField")).context.module.at?
      markedMethod ≠ none ∧
    ∀ n, ({} : Thresholds).eligibleAt?
      (contextAt builtinStages (markedContext "UnityEngine.SerializeField") n).module
        markedMethod = some false := by
  have hstays := protection_survives_stages builtinStages (fun _ h => h)
    (markedContext "UnityEngine.SerializeField") markedMethod (by decide +kernel) fun n hn =>
      eq_zero_of_renameStage hn ▸ marksKept_markedContext
  obtain ⟨heligible, -, t, m, t', m', -, hat, -⟩ := hstays
  exact ⟨by rw [hat]; exact Option.some_ne_none _, heligible⟩

/-- **A mark can be renamed.**  The type of the attribute gets a new name, the method counts as one
that may be changed, and its sum is folded. -/
theorem markedContext_loses_protection :
    ({} : Thresholds).eligibleAt? (markedContext "SerializeMark").module markedMethod =
        some false ∧
      ({} : Thresholds).eligibleAt?
        (runStages [renameStage] (markedContext "SerializeMark")).context.module markedMethod =
          some true ∧
      ((runStages [renameStage, foldStage] (markedContext "SerializeMark")).context.module.at?
        markedMethod).map (fun entry => entry.2.body.map (·.code)) =
          some (some [.ldcI4 .short, .pop, .ret]) := by
  decide +kernel

end CilRepair
