import CilRepair.Stage.Selection
import Mathlib.Data.List.Basic

/-!
# Registered stages

A registry has one entry for each name, case ignored.  A stage registered under a name takes the
place of the stage that has it, so that of all registrations under a name the last one counts, and
the name stays where it was and as it was first written.

* `find?_register`, `names_register` — what one registration changes.
* `StageRegistry.registerAll`, `latest?` — registrations in a row, and the last one under a name.
* `find?_registerAll`, `names_registerAll` — what is found after them, and under which names.
* `Unambiguous.registerAll` — no two names are alike; `map_find?_names` says that each then leads to
  the stage of its own entry.

## Design notes

A registry is a list of entries, and a registration either overwrites one in place or adds one at
the end.  Two views of it are enough: what a name finds, and which names there are in which order.
Each view has one lemma for a registration and one for registrations in a row, and nothing later
looks at entries.

The last registration counts for what is found and the first one for how the name is written.  So
the two views go through the registrations in opposite directions: `latest?` from the end, and
`eraseDupsBy` from the start.
-/

namespace CilRepair

/-! ### Case -/

theorem sameIgnoringCase_iff {a b : String} :
    sameIgnoringCase a b = true ↔ lowerAscii a = lowerAscii b := beq_iff_eq

theorem sameIgnoringCase_self (a : String) : sameIgnoringCase a a = true :=
  sameIgnoringCase_iff.mpr rfl

theorem sameIgnoringCase_comm (a b : String) : sameIgnoringCase a b = sameIgnoringCase b a :=
  BEq.comm

/-- Names that are alike are like the same names. -/
theorem sameIgnoringCase_congr {a b : String} (h : sameIgnoringCase a b = true) (c : String) :
    sameIgnoringCase a c = sameIgnoringCase b c := by
  rw [sameIgnoringCase, sameIgnoringCase_iff.mp h, ← sameIgnoringCase]

namespace StageRegistry

variable {σ : Type} {name other : String} {stage : Stage σ} {entries : List (String × Stage σ)}

/-! ### One registration -/

theorem find?_cons (entry : String × Stage σ) (rest : List (String × Stage σ)) (name : String) :
    find? ⟨entry :: rest⟩ name =
      if sameIgnoringCase entry.1 name then some entry.2 else find? ⟨rest⟩ name := by
  rw [find?, List.find?_cons, find?]
  cases sameIgnoringCase entry.1 name <;> rfl

/-- **What is found after a registration:** the new stage under its name, and what was there before
under any other.  By induction on the entries, up to the one that is overwritten. -/
theorem find?_put (name : String) (stage : Stage σ) (entries : List (String × Stage σ))
    (other : String) :
    find? ⟨put name stage entries⟩ other =
      if sameIgnoringCase name other then some stage else find? ⟨entries⟩ other := by
  induction entries with
  | nil => exact find?_cons (name, stage) [] other
  | cons entry rest ih =>
      rw [put, find?_cons]
      by_cases hname : sameIgnoringCase entry.1 name = true
      · -- The entry keeps its spelling, which is like the new one.
        rw [if_pos hname, find?_cons, sameIgnoringCase_congr hname]
        cases sameIgnoringCase name other <;> rfl
      · rw [if_neg hname, find?_cons, ih]
        split
        · next hentry =>
            have hother : ¬ sameIgnoringCase name other = true := by
              rw [sameIgnoringCase_iff] at hentry hname ⊢
              exact fun h => hname (hentry.trans h.symm)
            rw [if_neg hother]
        · rfl

/-- **The names after a registration:** the same, or one more at the end. -/
theorem names_put (name : String) (stage : Stage σ) (entries : List (String × Stage σ)) :
    (put name stage entries).map (·.1) =
      if (entries.map (·.1)).any (sameIgnoringCase · name) then entries.map (·.1)
      else entries.map (·.1) ++ [name] := by
  induction entries with
  | nil => rfl
  | cons entry rest ih =>
      rw [put, List.map_cons, List.any_cons]
      cases sameIgnoringCase entry.1 name with
      | true => rfl
      | false =>
          rw [if_neg Bool.false_ne_true, List.map_cons, ih, Bool.false_or]
          split <;> rfl

variable (r : StageRegistry σ)

theorem find?_register (name : String) (stage : Stage σ) (other : String) :
    (r.register name stage).find? other =
      if sameIgnoringCase name other then some stage else r.find? other :=
  find?_put name stage r.entries other

theorem names_register (name : String) (stage : Stage σ) :
    (r.register name stage).names =
      if r.names.any (sameIgnoringCase · name) then r.names else r.names ++ [name] :=
  names_put name stage r.entries

/-! ### Registrations in a row -/

/-- **Stages registered one after the other.** -/
def registerAll (registrations : List (String × Stage σ)) : StageRegistry σ :=
  registrations.foldl (fun r entry => r.register entry.1 entry.2) r

/-- **The stage that was last registered under a name,** case ignored. -/
def latest? (registrations : List (String × Stage σ)) (name : String) : Option (Stage σ) :=
  (registrations.findRev? fun entry => sameIgnoringCase entry.1 name).map (·.2)

/-- A later registration goes before an earlier one. -/
theorem latest?_cons (entry : String × Stage σ) (rest : List (String × Stage σ)) (name : String) :
    latest? (entry :: rest) name =
      (latest? rest name).or (if sameIgnoringCase entry.1 name then some entry.2 else none) := by
  rw [latest?, List.findRev?, latest?]
  cases List.findRev? (fun entry => sameIgnoringCase entry.1 name) rest with
  | some found => rfl
  | none => cases sameIgnoringCase entry.1 name <;> rfl

/-- **The last registration under a name counts,** and a registration goes before what was there. -/
theorem find?_registerAll (registrations : List (String × Stage σ)) (name : String) :
    (r.registerAll registrations).find? name = (latest? registrations name).or (r.find? name) := by
  induction registrations generalizing r with
  | nil => rfl
  | cons entry rest ih =>
      rw [registerAll, List.foldl_cons, ← registerAll, ih, find?_register, latest?_cons]
      cases latest? rest name with
      | some found => rfl
      | none => cases sameIgnoringCase entry.1 name <;> rfl

/-- **The names stay in the order of their first registrations,** behind those that were there.  A
name that is alike to one of these is not added. -/
theorem names_registerAll (registrations : List (String × Stage σ)) :
    (r.registerAll registrations).names = r.names ++
      ((registrations.map (·.1)).filter fun name =>
        !r.names.any (sameIgnoringCase · name)).eraseDupsBy sameIgnoringCase := by
  induction registrations generalizing r with
  | nil => exact (List.append_nil _).symm
  | cons entry rest ih =>
      rw [registerAll, List.foldl_cons, ← registerAll, ih, names_register, List.map_cons]
      cases hknown : r.names.any (sameIgnoringCase · entry.1) with
      | true => rw [if_pos rfl, List.filter_cons_of_neg (by rw [hknown]; exact Bool.false_ne_true)]
      | false =>
          rw [if_neg Bool.false_ne_true, List.filter_cons_of_pos (by rw [hknown]; rfl),
            List.eraseDupsBy_cons, List.filter_filter, List.append_assoc, List.singleton_append]
          -- What is like the new name is left out on either side, here at once and there behind it.
          have hfilter : ((rest.map (·.1)).filter fun name =>
              !(r.names ++ [entry.1]).any (sameIgnoringCase · name)) =
                (rest.map (·.1)).filter fun name =>
                  decide (sameIgnoringCase name entry.1 = false) &&
                    !r.names.any (sameIgnoringCase · name) := by
            refine List.filter_congr fun name _ => ?_
            rw [List.any_append, List.any_cons, List.any_nil, Bool.or_false, Bool.not_or,
              Bool.and_comm, sameIgnoringCase_comm entry.1 name]
            cases sameIgnoringCase name entry.1 <;> rfl
          rw [hfilter]

/-! ### Distinct names -/

/-- **No two names are alike.** -/
def Unambiguous : Prop := r.names.Pairwise fun a b => sameIgnoringCase a b = false

theorem unambiguous_empty : (empty : StageRegistry σ).Unambiguous := List.Pairwise.nil

variable {r}

/-- A registration keeps the names distinct: a new one is only added if none is alike. -/
theorem Unambiguous.register (h : r.Unambiguous) (name : String) (stage : Stage σ) :
    (r.register name stage).Unambiguous := by
  rw [Unambiguous, names_register]
  split
  · exact h
  · next hnew =>
      rw [Bool.not_eq_true, List.any_eq_false] at hnew
      refine List.pairwise_append.mpr ⟨h, List.pairwise_singleton _ _, fun a ha b hb => ?_⟩
      rw [List.mem_singleton.mp hb]
      exact Bool.not_eq_true _ ▸ hnew a ha

/-- **Registrations keep the names distinct.** -/
theorem Unambiguous.registerAll (h : r.Unambiguous) (registrations : List (String × Stage σ)) :
    (r.registerAll registrations).Unambiguous := by
  induction registrations generalizing r with
  | nil => exact h
  | cons entry rest ih => exact ih (h.register entry.1 entry.2)

/-- **Each name leads to the stage of its own entry.**  No entry before it is alike, so that the
search does not stop earlier. -/
theorem Unambiguous.map_find?_names (h : r.Unambiguous) :
    r.names.map r.find? = r.entries.map fun entry => some entry.2 := by
  obtain ⟨entries⟩ := r
  rw [Unambiguous, names] at h
  rw [names, List.map_map]
  induction entries with
  | nil => rfl
  | cons entry rest ih =>
      obtain ⟨hhead, hrest⟩ := List.pairwise_cons.mp h
      rw [List.map_cons, List.map_cons, ← ih hrest]
      refine congrArg₂ List.cons ?_ (List.map_congr_left fun later hlater => ?_)
      · exact (find?_cons entry rest entry.1).trans (if_pos (sameIgnoringCase_self entry.1))
      · have hne := hhead later.1 (List.mem_map_of_mem hlater)
        exact (find?_cons entry rest later.1).trans (if_neg (hne ▸ Bool.false_ne_true))

end StageRegistry

end CilRepair
