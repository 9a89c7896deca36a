import CilRepair.Proofs.FreshNames
import CilRepair.Proofs.Protection

/-!
# New names in a module

A renaming deals out fresh names: first to the types, then to each method and its parameters.  Here
the dealing is undone: the new names, read back from the renamed module in the same order, are the
names that the registry gave out.

* `renameWithin` — the stage with any patience; `renameModule` is the case of the default one.
* `FreshFor`, `renameWithin_cases` — which names may be dealt out, and what is made with them.
* `Renaming.typeName` — the name of a type after a renaming.
* `Module.namesAt`, `FreshFor.namesAt_run` — the new names read back.
* `generated_names_unique` — no name is given out twice, by a registry or to a module.

## Design notes

Distinctness is proved by reading back.  That the names dealt out are all different is known from
the registry; if reading the new names from the module in the order of the dealing gives back the
very list, then no two places share one, whatever kind of thing they name.  No two places are
compared anywhere.

`FreshFor` gathers what the dealing may use about names, so that nothing about registries is needed
once `renameWithin_cases` has been applied.  The stage is stated with any patience, because how long
the search for a name goes on has no part in what the names are like.
-/

namespace CilRepair

/-! ### The stage with any patience -/

/-- The number of names that the renaming of a module needs. -/
def neededNames (limits : Thresholds) (m : Module) : Nat :=
  namesNeeded (renamableTypes m) ((renamableMethods limits m).map fun l => (l, paramCount m l))

section Stage

variable {σ : Type} [DrawSource σ]

/-- The renaming of the module of a context, with names dealt out to all that may be renamed. -/
abbrev StageContext.renaming {σ : Type} (c : StageContext σ) (names : List String) : Renaming :=
  renamingOf c.limits c.module names

/-- **Renaming with some patience** in the search for each name. -/
def renameWithin (patience : Nat) (c : StageContext σ) : StageOutcome σ :=
  match (c.names.reserveAll c.module.identifiers).generateAll? patience
      (neededNames c.limits c.module) with
  | none => { context := c, failure := some (.stage "rename" noFreeName) }
  | some (fresh, names) =>
    let plan := c.renaming fresh
    { context := { c with module := plan.run c.module, names }
      events := plan.events c.module }

/-- The stage has the default patience. -/
theorem renameModule_eq_renameWithin (c : StageContext σ) :
    renameModule c = renameWithin NameRegistry.defaultPatience c := rfl

end Stage

namespace NameRegistry

variable {σ : Type}

/-- Names that are reserved are in use afterwards, those in use stay so, and the empty name is never
reserved. -/
theorem mem_used_reserveAll_iff {r : NameRegistry σ} {taken : List String} {name : String} :
    name ∈ (r.reserveAll taken).used ↔ name ∈ taken ∧ name ≠ "" ∨ name ∈ r.used := by
  induction taken generalizing r with
  | nil => simp [reserveAll]
  | cons first taken ih =>
      have hfold : r.reserveAll (first :: taken) = (r.reserve first).2.reserveAll taken := rfl
      rw [hfold, ih, mem_used_reserve_iff, List.mem_cons]
      constructor
      · rintro (⟨htaken, hne⟩ | ⟨rfl, hne⟩ | hused)
        exacts [.inl ⟨.inr htaken, hne⟩, .inl ⟨.inl rfl, hne⟩, .inr hused]
      · rintro (⟨rfl | htaken, hne⟩ | hused)
        exacts [.inr (.inl ⟨rfl, hne⟩), .inl ⟨htaken, hne⟩, .inr (.inr hused)]

theorem length_reserveAll (r : NameRegistry σ) (taken : List String) :
    (r.reserveAll taken).length = r.length := by
  induction taken generalizing r with
  | nil => rfl
  | cons first taken ih => exact (ih _).trans (length_reserve r first)

end NameRegistry

/-- **Names that a renaming may deal out:** as many as it needs, all drawn and different, and none
of them in use or found in the module. -/
structure FreshFor {σ : Type} (c : StageContext σ) (names : List String) : Prop where
  count : names.length = neededNames c.limits c.module
  nodup : names.Nodup
  shape : ∀ name ∈ names, LooksDrawn c.names.length name
  unused : ∀ name ∈ names, name ∉ c.names.used
  unknown : ∀ name ∈ names, name ∉ c.module.identifiers

/-- **What the stage makes of a module:** nothing if the names run out, and otherwise a module with
fresh names.  The names of the module are reserved before any is drawn, which is why none of them is
drawn. -/
theorem renameWithin_cases {σ : Type} [DrawSource σ] (patience : Nat) (c : StageContext σ) :
    (renameWithin patience c).failure ≠ none ∧ (renameWithin patience c).context.module = c.module ∨
      ∃ fresh, FreshFor c fresh ∧ (renameWithin patience c).failure = none ∧
        (renameWithin patience c).context.module =
          (c.renaming fresh).run c.module := by
  rw [renameWithin]
  split
  · exact .inl ⟨Option.some_ne_none _, rfl⟩
  · next fresh names hgenerated =>
      obtain ⟨hcount, hissues⟩ := NameRegistry.issuesAll_of_generateAll? hgenerated
      have hlength := c.names.length_reserveAll c.module.identifiers
      have hshape := hlength ▸ hissues.shape
      have hfree := fun name hname => mt NameRegistry.mem_used_reserveAll_iff.mpr
        (hissues.free name hname)
      refine .inr ⟨fresh, ⟨hcount, hissues.nodup, hshape, ?_, ?_⟩, rfl, rfl⟩
      · exact fun name hname hused => hfree name hname (.inr hused)
      · intro name hname hknown
        have hne := (hshape name hname).ne_empty c.names.length_pos
        exact hfree name hname (.inl ⟨hknown, hne⟩)

/-! ### Who gets a name -/

/-- No type is listed twice, -/
theorem nodup_renamableTypes (m : Module) : (renamableTypes m).Nodup := by
  have hfilter : renamableTypes m =
      (m.types.zipIdx.filter fun entry => m.isRenamable entry.1).map Prod.snd := by
    rw [renamableTypes, ← List.filterMap_eq_map, List.filterMap_filter]
    rfl
  rw [hfilter]
  exact (map_snd_zipIdx_nodup m.types).sublist (List.filter_sublist.map _)

/-- no method has two places, -/
theorem nodup_locations (m : Module) : m.locations.Nodup := by
  rw [Module.locations, List.nodup_flatMap]
  refine ⟨fun entry _ => ?_, ?_⟩
  · exact List.nodup_range.map fun i j h => (MethodLocation.mk.inj h).2
  · have hindices := List.pairwise_map.mp (map_snd_zipIdx_nodup m.types)
    refine hindices.imp fun hne location hleft hright => hne ?_
    obtain ⟨_, -, rfl⟩ := List.mem_map.mp hleft
    obtain ⟨_, -, heq⟩ := List.mem_map.mp hright
    exact (MethodLocation.mk.inj heq).1.symm

/-- and no method is listed twice. -/
theorem nodup_renamableMethods (limits : Thresholds) (m : Module) :
    (renamableMethods limits m).Nodup := (nodup_locations m).filter _

/-! ### What is dealt out -/

/-- Types need one name each, and the rest is for methods. -/
theorem namesNeeded_eq (types : List Nat) (methods : List (MethodLocation × Nat)) :
    namesNeeded types methods = types.length + namesNeeded [] methods := by
  induction methods with
  | nil => rfl
  | cons method methods ih =>
      rw [namesNeeded, namesNeeded, ih]
      omega

/-- **Methods get what is dealt to them:** each one gets its names, as many as it needs, and all
names are used up.  By induction on the methods; a method takes its own name and those of its
parameters from the front of what is left. -/
theorem dealMethods_spec {methods : List (MethodLocation × Nat)} {names : List String}
    (h : names.length = namesNeeded [] methods) :
    (dealMethods methods names).map (fun entry => (entry.1, entry.2.params.length)) = methods ∧
      (dealMethods methods names).flatMap (fun entry => entry.2.name :: entry.2.params) =
        names := by
  induction methods generalizing names with
  | nil =>
      obtain rfl := List.eq_nil_of_length_eq_zero h
      exact ⟨rfl, rfl⟩
  | cons method methods ih =>
      obtain ⟨location, count⟩ := method
      rw [namesNeeded] at h
      cases names with
      | nil => exact absurd h (by simp)
      | cons name names =>
          rw [List.length_cons] at h
          have hrest : (names.drop count).length = namesNeeded [] methods := by
            rw [List.length_drop]
            omega
          obtain ⟨hmethods, hnames⟩ := ih hrest
          rw [dealMethods, List.map_cons, List.flatMap_cons, hmethods, hnames, List.length_take,
            Nat.min_eq_left (by omega), List.cons_append, List.take_append_drop]
          exact ⟨rfl, rfl⟩

section Dealt

variable {σ : Type} {c : StageContext σ} {names : List String}

theorem FreshFor.length_types_le (h : FreshFor c names) :
    (renamableTypes c.module).length ≤ names.length := by
  rw [h.count, neededNames, namesNeeded_eq]
  exact Nat.le_add_right _ _

/-- Names are dealt to the types that may be renamed, -/
theorem FreshFor.fst_types (h : FreshFor c names) :
    (c.renaming names).types.map Prod.fst = renamableTypes c.module :=
  List.map_fst_zip h.length_types_le

/-- and what they get are the first names. -/
theorem FreshFor.snd_types (h : FreshFor c names) :
    (c.renaming names).types.map Prod.snd =
      names.take (renamableTypes c.module).length := by
  change ((renamableTypes c.module).zip names).map Prod.snd = _
  rw [List.zip_eq_zip_take_min, Nat.min_eq_left h.length_types_le, List.take_length]
  exact List.map_snd_zip (List.length_take_le _ _)

/-- A type finds the name that it was dealt, since no type was dealt two. -/
theorem FreshFor.lookup_types (h : FreshFor c names) {index : Nat} {name : String}
    (hmem : (index, name) ∈ (c.renaming names).types) :
    (c.renaming names).types.lookup index = some name :=
  lookup_eq_some_of_nodup (h.fst_types ▸ nodup_renamableTypes c.module) hmem

theorem FreshFor.lookup_types_of_notMem (h : FreshFor c names) {index : Nat}
    (hindex : index ∉ renamableTypes c.module) : (c.renaming names).types.lookup index = none :=
  lookup_eq_none_of_notMem (h.fst_types ▸ hindex)

/-- A type that may be renamed gets one of the names. -/
theorem FreshFor.exists_mem_types (h : FreshFor c names) {index : Nat}
    (hindex : index ∈ renamableTypes c.module) :
    ∃ name, (index, name) ∈ (c.renaming names).types := by
  rw [← h.fst_types] at hindex
  obtain ⟨⟨_, name⟩, hmem, rfl⟩ := List.mem_map.mp hindex
  exact ⟨name, hmem⟩

/-- The names that the methods and their parameters get: all that the types left. -/
theorem FreshFor.methods_spec (h : FreshFor c names) :
    (c.renaming names).methods.map
          (fun entry => (entry.1, entry.2.params.length)) =
        (renamableMethods c.limits c.module).map (fun l => (l, paramCount c.module l)) ∧
      (c.renaming names).methods.flatMap
          (fun entry => entry.2.name :: entry.2.params) =
        names.drop (renamableTypes c.module).length := by
  refine dealMethods_spec ?_
  rw [List.length_drop, h.count, neededNames, namesNeeded_eq]
  exact Nat.add_sub_cancel_left _ _

theorem FreshFor.fst_methods (h : FreshFor c names) :
    (c.renaming names).methods.map Prod.fst =
      renamableMethods c.limits c.module := by
  have hfst := congrArg (List.map Prod.fst) h.methods_spec.1
  rwa [List.map_map, List.map_map, Function.comp_def, Function.comp_def, List.map_id'] at hfst

end Dealt

/-! ### The renamed module -/

/-- The names of a method and of its parameters. -/
def MethodDef.names (m : MethodDef) : List String := m.name :: m.params.map (·.name)

theorem MethodDef.names_mapReferences (f : String → String) (m : MethodDef) :
    (m.mapReferences f).names = m.names := by
  rw [names, mapReferences, List.map_map, names]
  rfl

namespace Renaming

variable (r : Renaming) (m : Module)

/-- **The name of a type after a renaming.** -/
def typeName (index : Nat) (t : TypeDef) : String := (r.types.lookup index).getD t.name

/-- A type after a renaming is the type before it with its own name and its references replaced. -/
theorem getElem?_types_run (index : Nat) :
    (r.run m).types[index]? =
      m.types[index]?.map fun t => (r.applyToType index t).mapReferences (r.substitution m) := by
  rw [run, Module.mapReferences, List.getElem?_map, apply, List.getElem?_mapIdx, Option.map_map]
  rfl

/-- The names at a place are changed by what the renaming has for that place; references do not
matter. -/
theorem names_at?_run (location : MethodLocation) :
    ((r.run m).at? location).map (·.2.names) =
      (m.at? location).map fun found => (r.applyToMethod location found.2).names := by
  rw [Module.at?, getElem?_types_run, Module.at?]
  cases m.types[location.typeIndex]? with
  | none => rfl
  | some t =>
      rw [Option.map_some, Option.bind_eq_bind, Option.bind_some, TypeDef.mapReferences,
        applyToType, List.getElem?_map, List.getElem?_mapIdx, Option.bind_eq_bind,
        Option.bind_some]
      cases t.methods[location.methodIndex]? with
      | none => rfl
      | some method => exact congrArg some (MethodDef.names_mapReferences _ _)

/-- Parameters get the names in order, if there are as many. -/
theorem map_name_renameParams {params : List Param} {names : List String}
    (h : names.length = params.length) : (renameParams params names).map (·.name) = names := by
  induction params generalizing names with
  | nil =>
      obtain rfl := List.eq_nil_of_length_eq_zero h
      rfl
  | cons p params ih =>
      cases names with
      | nil => exact absurd h (by simp)
      | cons name names => exact congrArg (name :: ·) (ih (Nat.succ.inj h))

end Renaming

/-- **The names at some places:** those of the types, then those of the methods, each followed by
its parameters. -/
def Module.namesAt (m : Module) (types : List Nat) (methods : List MethodLocation) : List String :=
  types.filterMap (fun index => m.types[index]?.map (·.name)) ++
    methods.flatMap fun location => ((m.at? location).map (·.2.names)).getD []

section Reading

variable {σ : Type} {c : StageContext σ} {names : List String}

/-- **A type has the name that it was dealt.** -/
theorem FreshFor.name_type (h : FreshFor c names) {index : Nat} {name : String}
    (hmem : (index, name) ∈ (c.renaming names).types) :
    ((c.renaming names).run c.module).types[index]?.map (·.name) =
      some name := by
  obtain ⟨t, ht, -⟩ := exists_of_mem_renamableTypes (List.of_mem_zip hmem).1
  rw [Renaming.getElem?_types_run, ht]
  change some (((c.renaming names).types.lookup index).getD t.name) = _
  rw [h.lookup_types hmem, Option.getD_some]

/-- **A method and its parameters have the names that they were dealt.**  The method is found at its
location after the renaming, and its parameters have been dealt names in their order. -/
theorem FreshFor.names_method (h : FreshFor c names)
    {entry : MethodLocation × MethodRenaming}
    (hmem : entry ∈ (c.renaming names).methods) :
    ((((c.renaming names).run c.module).at? entry.1).map (·.2.names)).getD [] =
      entry.2.name :: entry.2.params := by
  have hnodup := h.fst_methods ▸ nodup_renamableMethods c.limits c.module
  have hlookup := lookup_eq_some_of_nodup hnodup hmem
  have hrenamable : entry.1 ∈ renamableMethods c.limits c.module :=
    h.fst_methods ▸ List.mem_map_of_mem hmem
  obtain ⟨⟨t, method⟩, hat⟩ := Option.isSome_iff_exists.mp
    (Option.isSome_of_any (List.mem_filter.mp hrenamable).2)
  -- The method was dealt as many names as it has parameters, so that none of them is left over.
  have hcount : entry.2.params.length = method.params.length := by
    have hpair : (entry.1, entry.2.params.length) ∈
        (renamableMethods c.limits c.module).map fun l => (l, paramCount c.module l) := by
      rw [← h.methods_spec.1]
      exact List.mem_map.mpr ⟨entry, hmem, rfl⟩
    obtain ⟨location, -, heq⟩ := List.mem_map.mp hpair
    obtain ⟨rfl, hcount⟩ := Prod.mk.inj heq
    rw [← hcount, paramCount, hat]
    rfl
  have happlied : (c.renaming names).applyToMethod entry.1 method =
      { method with
        name := entry.2.name
        params := Renaming.renameParams method.params entry.2.params } := by
    rw [Renaming.applyToMethod, hlookup]
  rw [Renaming.names_at?_run, hat, Option.map_some, happlied, Option.getD_some]
  exact congrArg (entry.2.name :: ·) (Renaming.map_name_renameParams hcount)

/-- **The new names, read back from the module, are the names that were dealt out.**  The types give
back the first of them and the methods the others. -/
theorem FreshFor.namesAt_run (h : FreshFor c names) :
    ((c.renaming names).run c.module).namesAt (renamableTypes c.module)
      (renamableMethods c.limits c.module) = names := by
  have htypes : (renamableTypes c.module).filterMap (fun index =>
      ((c.renaming names).run c.module).types[index]?.map (·.name)) =
        names.take (renamableTypes c.module).length := by
    rw [← h.snd_types, ← List.filterMap_eq_map]
    nth_rewrite 1 [← h.fst_types]
    rw [List.filterMap_map]
    exact List.filterMap_congr fun entry hentry => h.name_type hentry
  have hmethods : (renamableMethods c.limits c.module).flatMap (fun location =>
      ((((c.renaming names).run c.module).at? location).map (·.2.names)).getD []) =
        names.drop (renamableTypes c.module).length := by
    rw [← h.methods_spec.2, ← h.fst_methods, List.flatMap_map]
    exact List.flatMap_congr fun entry hentry => h.names_method hentry
  rw [Module.namesAt, htypes, hmethods, List.take_append_drop]

/-- **What may not be renamed keeps its names,** types as well as methods with their parameters.
Nothing was dealt for them, and a renaming writes only what was dealt. -/
theorem FreshFor.namesAt_run_of_disjoint (h : FreshFor c names) {types : List Nat}
    {methods : List MethodLocation} (htypes : types.Disjoint (renamableTypes c.module))
    (hmethods : methods.Disjoint (renamableMethods c.limits c.module)) :
    ((c.renaming names).run c.module).namesAt types methods = c.module.namesAt types methods := by
  rw [Module.namesAt, Module.namesAt]
  congr 1
  · refine List.filterMap_congr fun index hindex => ?_
    rw [Renaming.getElem?_types_run, Option.map_map]
    refine congrArg (Option.map · c.module.types[index]?) (funext fun t => ?_)
    change ((c.renaming names).types.lookup index).getD t.name = t.name
    rw [h.lookup_types_of_notMem (htypes hindex), Option.getD_none]
  · refine List.flatMap_congr fun location hlocation => ?_
    have hlookup : (c.renaming names).methods.lookup location = none :=
      lookup_eq_none_of_notMem (h.fst_methods ▸ hmethods hlocation)
    rw [Renaming.names_at?_run]
    refine congrArg (fun names => (Option.map names (c.module.at? location)).getD [])
      (funext fun found => ?_)
    rw [Renaming.applyToMethod, hlookup]

end Reading

/-! ### No name twice -/

/-- **Generated names are unique.**  Let any calls be made on a registry whose names have any length
and which draws from any source.  A name that it then gives out is not empty, was neither given out
nor reserved since the last reset, is in use afterwards as one name more, and consists of so many
letters, or of so many letters and a number of four digits.  So the types, methods and parameters
that a renaming names, and it names all that may be renamed and nothing else, have different names,
none of which was the name of a type, method or parameter before. -/
theorem generated_names_unique {σ : Type} [DrawSource σ] :
    (∀ (start : NameRegistry σ) (taken : List String) (r : NameRegistry σ),
      start.CallsLead taken r → ∀ patience name r', r.generate? patience = some (name, r') →
        name ≠ "" ∧ name ∉ taken ∧ r'.contains name = true ∧ r'.size = r.size + 1 ∧
          LooksDrawn start.length name) ∧
      ∀ (patience : Nat) (c : StageContext σ), (renameWithin patience c).failure = none →
        let named := (renameWithin patience c).context.module.namesAt (renamableTypes c.module)
          (renamableMethods c.limits c.module)
        named.length = neededNames c.limits c.module ∧ named.Nodup ∧
          (∀ name ∈ named, name ∉ c.module.identifiers) ∧
          ∀ types methods, types.Disjoint (renamableTypes c.module) →
            methods.Disjoint (renamableMethods c.limits c.module) →
              (renameWithin patience c).context.module.namesAt types methods =
                c.module.namesAt types methods := by
  constructor
  · intro start taken r hcalls patience name r' hname
    have hissues := NameRegistry.issues_of_generate? hname
    refine ⟨hissues.ne_empty, fun htaken => ?_, ?_, ?_, hcalls.length_eq ▸ hissues.shape⟩
    · exact hissues.free (hcalls.mem_used htaken hissues.ne_empty)
    · rw [NameRegistry.contains, hissues.used, List.contains_iff_mem]
      exact List.mem_cons_self
    · rw [NameRegistry.size, hissues.used, List.length_cons, NameRegistry.size]
  · -- A renaming that does not fail has dealt fresh names.
    intro patience c hfailure
    rcases renameWithin_cases patience c with ⟨hfailed, -⟩ | ⟨fresh, hfresh, -, hmodule⟩
    · exact absurd hfailure hfailed
    · dsimp only
      rw [hmodule, hfresh.namesAt_run]
      exact ⟨hfresh.count, hfresh.nodup, hfresh.unknown,
        fun _ _ htypes hmethods => hfresh.namesAt_run_of_disjoint htypes hmethods⟩

/-- A source that knows one letter and counts its numbers. -/
structure OneLetter where
  next : Fin 9000

instance : DrawSource OneLetter where
  letter s := (⟨0, by decide⟩, s)
  suffix s := (s.next, ⟨⟨(s.next + 1) % 9000, Nat.mod_lt _ (by decide)⟩⟩)

/-- A registry that has given out its only letter. -/
def spentNames : NameRegistry OneLetter :=
  { NameRegistry.new ⟨⟨0, by decide⟩⟩ 1 2 with used := ["A"] }

/-- That registry with the first number reserved as well. -/
def crowdedNames : NameRegistry OneLetter := (spentNames.reserve "A1000").2

/-- A context whose module has two types that may be renamed, a method with a parameter, and a type
that keeps its name. -/
def crowdedContext : StageContext OneLetter where
  module :=
    { name := "sample"
      types :=
        [TypeDef.new ⟨1⟩ "" "A",
          { TypeDef.new ⟨2⟩ "" "T" with
            methods :=
              [{ MethodDef.new ⟨3⟩ "f" with
                params := [⟨"A1001", .i4⟩], body := some addingBody }] },
          TypeDef.new ⟨4⟩ "" "<Module>"]
      entryPoint := none }
  names := crowdedNames
  limits := {}
  budget := 0
  offsetShift := 0

/-- A registry that finds its letter and the first number taken gives out the next number, and a
module in which a type already has the letter gets other names for all that may be renamed. -/
theorem crowdedNames_generate_unique :
    (NameRegistry.new (⟨0⟩ : OneLetter) 1 2).CallsLead ["A1000", "A"] crowdedNames ∧
      (∃ r', crowdedNames.generate? 2 = some ("A1001", r') ∧ "A1001" ∉ ["A1000", "A"] ∧
        r'.contains "A1001" = true ∧ r'.size = 3 ∧ LooksDrawn 1 "A1001") ∧
      (renameWithin 5 crowdedContext).failure = none ∧
      ((renameWithin 5 crowdedContext).context.module.namesAt [0, 1] [⟨1, 0⟩]).Nodup ∧
      (renameWithin 5 crowdedContext).context.module.namesAt [2] [] = ["<Module>"] := by
  have hfirst : (NameRegistry.new (⟨0⟩ : OneLetter) 1 2).generate? 1 = some ("A", spentNames) := rfl
  have hcalls := NameRegistry.CallsLead.reserve (.generate .start hfirst) "A1000"
  have hsecond : ∃ r', crowdedNames.generate? 2 = some ("A1001", r') := ⟨_, rfl⟩
  obtain ⟨r', hsecond⟩ := hsecond
  obtain ⟨hregistry, hstage⟩ := @generated_names_unique OneLetter _
  obtain ⟨-, hnew, hcontains, hsize, hshape⟩ := hregistry _ _ _ hcalls 2 "A1001" r' hsecond
  have hfailure : (renameWithin 5 crowdedContext).failure = none := by decide +kernel
  obtain ⟨-, hnodup, -, hkeeps⟩ := hstage 5 crowdedContext hfailure
  exact ⟨hcalls, ⟨r', hsecond, hnew, hcontains, hsize, hshape⟩, hfailure, hnodup,
    hkeeps [2] [] (List.singleton_disjoint.mpr (by decide)) (List.disjoint_nil_left _)⟩

end CilRepair
