import Mathlib.Data.List.Forall2
import Mathlib.Data.List.Infix
import Mathlib.Data.List.InsertIdx
import Mathlib.Data.List.Nodup

/-!
# Lists

What the other modules need to know about lists and what is not about bodies, modules or images in
particular.

* `mem_of_lookup`, `lookup_eq_some_of_nodup`, `filterMap_lookup` — tables as lists of pairs.
* `mem_map_iff_getElem?`, `map_mapIdx_eq` — entries and their places.
* `insertIdx_length_append`, `modify_append_cons`, `prefix_set` — a change at a place.
* `forall₂_filterMap`, `forall₂_mapIdx`, `exists_of_mem_forall₂` — lists side by side.

## Design notes

A place is given here by what stands before it (`before ++ x :: after`) or by an optional look-up
(`xs[n]?`), and never by an index with a proof that it is in range.  A body changes while it is
spoken about, and such a proof would have to be carried along through every change.
-/

namespace CilRepair

/-! ### Look-ups

The first entry of a key is the one that is found.  Objects of an image, new names and places of
methods are all looked up in this way. -/

section LookUp

variable {κ α β : Type} [BEq κ] {entries : List (κ × α)} {key : κ} {value : α}

/-- A change of the values is a change of what is found. -/
theorem lookup_map_value (f : α → β) (entries : List (κ × α)) (key : κ) :
    (entries.map fun entry => (entry.1, f entry.2)).lookup key = (entries.lookup key).map f := by
  induction entries with
  | nil => rfl
  | cons entry entries ih =>
      rw [List.map_cons, List.lookup_cons, List.lookup_cons]
      cases key == entry.1 with
      | true => rfl
      | false => exact ih

variable [LawfulBEq κ]

/-- What is found was there. -/
theorem mem_of_lookup (h : entries.lookup key = some value) : (key, value) ∈ entries := by
  obtain ⟨before, after, rfl, -⟩ := List.lookup_eq_some_iff.mp h
  exact List.mem_append_right _ List.mem_cons_self

/-- A key that no entry has is not found. -/
theorem lookup_eq_none_of_notMem (h : key ∉ entries.map Prod.fst) : entries.lookup key = none := by
  rw [List.lookup_eq_none_iff]
  intro entry hentry
  rw [bne_iff_ne]
  rintro rfl
  exact h (List.mem_map_of_mem hentry)

/-- The only entry of a key is found.  The keys of other entries may repeat. -/
theorem lookup_eq_some_of_unique (hmem : (key, value) ∈ entries)
    (hunique : ∀ other, (key, other) ∈ entries → other = value) :
    entries.lookup key = some value := by
  cases hfound : entries.lookup key with
  | none =>
      have hkey := List.lookup_eq_none_iff.mp hfound _ hmem
      exact absurd rfl (bne_iff_ne.mp hkey)
  | some other => rw [hunique other (mem_of_lookup hfound)]

/-- Without repeated keys every entry is found. -/
theorem lookup_eq_some_of_nodup (hnodup : (entries.map Prod.fst).Nodup)
    (hmem : (key, value) ∈ entries) : entries.lookup key = some value :=
  lookup_eq_some_of_unique hmem fun _ hother =>
    congrArg Prod.snd (List.inj_on_of_nodup_map hnodup hother hmem rfl)

/-- A change of the keys is none of what is found, as long as different keys stay different. -/
theorem lookup_map_key {κ' : Type} [BEq κ'] [LawfulBEq κ'] {f : κ → κ'}
    (hf : Function.Injective f) (entries : List (κ × α)) (key : κ) :
    (entries.map fun entry => (f entry.1, entry.2)).lookup (f key) = entries.lookup key := by
  induction entries with
  | nil => rfl
  | cons entry entries ih =>
      have hkey : (f key == f entry.1) = (key == entry.1) := by
        rw [Bool.eq_iff_iff, beq_iff_eq, beq_iff_eq, hf.eq_iff]
      rw [List.map_cons, List.lookup_cons, List.lookup_cons, hkey, ih]

/-- Keys that have one value in common. -/
theorem lookup_map_const {keys : List κ} :
    (keys.map (·, value)).lookup key = if key ∈ keys then some value else none := by
  induction keys with
  | nil => rfl
  | cons first rest ih =>
      rw [List.map_cons, List.lookup_cons, ih]
      by_cases hkey : key = first
      · simp [hkey]
      · simp [hkey, beq_false_of_ne hkey]

/-- **Looking up every key in order finds the entries again.**  The table may leave keys out, but
has to have them in the order in which they are looked up. -/
theorem filterMap_lookup {keys : List κ} (hnodup : keys.Nodup)
    (h : (entries.map (·.1)).Sublist keys) :
    (keys.filterMap fun key => (entries.lookup key).map (key, ·)) = entries := by
  induction keys generalizing entries with
  | nil => exact (List.map_eq_nil_iff.mp (List.sublist_nil.mp h)).symm
  | cons key keys ih =>
      obtain ⟨hkey, hrest⟩ := List.nodup_cons.mp hnodup
      rcases List.sublist_cons_iff.mp h with hsub | ⟨others, hothers, hsub⟩
      · -- The table leaves this key out,
        have hnone : entries.lookup key = none :=
          lookup_eq_none_of_notMem fun hmem => hkey (hsub.subset hmem)
        rw [List.filterMap_cons, hnone]
        exact ih hrest hsub
      · -- or it begins with it; later keys are others and do not see the first entry.
        obtain ⟨⟨first, value⟩, entries, rfl⟩ : ∃ entry rest, entries = entry :: rest :=
          List.exists_cons_of_ne_nil fun hnil => by simp [hnil] at hothers
        rw [List.map_cons] at hothers
        obtain ⟨rfl, rfl⟩ := List.cons.inj hothers
        have htail : (keys.filterMap fun key =>
            (((first, value) :: entries).lookup key).map (key, ·)) = entries := by
          rw [← ih hrest hsub]
          refine List.filterMap_congr fun other hmem => ?_
          have hne : (other == first) = false := by
            rw [beq_eq_false_iff_ne]
            rintro rfl
            exact hkey hmem
          rw [List.lookup_cons, hne, ih hrest hsub]
        rw [List.filterMap_cons, List.lookup_cons_self, Option.map_some]
        exact congrArg _ htail

end LookUp

/-! ### Places -/

section Places

variable {α β γ : Type} {xs : List α}

/-- What a selection yields comes from some place. -/
theorem mem_filterMap_iff_getElem? {f : α → Option β} {y : β} :
    y ∈ xs.filterMap f ↔ ∃ n : Nat, xs[n]?.bind f = some y := by
  constructor
  · intro h
    obtain ⟨x, hx, hy⟩ := List.mem_filterMap.mp h
    obtain ⟨n, hn⟩ := List.mem_iff_getElem?.mp hx
    exact ⟨n, by rw [hn, Option.bind_some, hy]⟩
  · rintro ⟨n, hn⟩
    obtain ⟨x, hx, hy⟩ := Option.bind_eq_some_iff.mp hn
    exact List.mem_filterMap.mpr ⟨x, List.mem_of_getElem? hx, hy⟩

theorem mem_map_iff_getElem? {f : α → β} {y : β} :
    y ∈ xs.map f ↔ ∃ n : Nat, xs[n]?.map f = some y := by
  rw [List.mem_iff_getElem?]
  simp only [List.getElem?_map]

theorem map_snd_zipIdx_nodup (xs : List α) : (xs.zipIdx.map Prod.snd).Nodup := by
  rw [List.zipIdx_map_snd]
  exact List.nodup_range'

/-- A map with an index is not seen by what does not look at its changes. -/
theorem map_mapIdx_eq {f : Nat → α → β} {g : β → γ} {h : α → γ} (heq : ∀ n x, g (f n x) = h x)
    (xs : List α) : (xs.mapIdx f).map g = xs.map h := by
  refine List.ext_getElem? fun n => ?_
  rw [List.getElem?_map, List.getElem?_mapIdx, List.getElem?_map]
  cases xs[n]? with
  | none => rfl
  | some x => exact congrArg some (heq n x)

/-! ### Changes at a place -/

theorem insertIdx_length_append (before after : List α) (x : α) :
    (before ++ after).insertIdx before.length x = before ++ x :: after := by
  induction before with
  | nil => rfl
  | cons head rest ih => exact congrArg (head :: ·) ih

/-- A change of what stands between two parts of a list. -/
theorem modify_append_cons {before : List α} {n : Nat} (hn : before.length = n) (x : α)
    (after : List α) (f : α → α) :
    (before ++ x :: after).modify n f = before ++ f x :: after := by
  subst hn
  induction before with
  | nil => rfl
  | cons first rest ih => exact congrArg (first :: ·) ih

/-- A filter does not see an insertion that it does not let through. -/
theorem filter_insertIdx_of_neg {p : α → Bool} {x : α} (hx : p x = false) {n : Nat}
    (hn : n ≤ xs.length) : (xs.insertIdx n x).filter p = xs.filter p := by
  have hsublist := (List.sublist_insertIdx xs n x).filter p
  have hperm := (List.perm_insertIdx x xs hn).filter p
  rw [List.filter_cons_of_neg (by rw [hx]; exact Bool.false_ne_true)] at hperm
  exact (hsublist.eq_of_length hperm.length_eq.symm).symm

/-- A longer list stays longer if both are changed at one place, even behind the end of the
shorter one. -/
theorem prefix_set {ys : List α} (h : xs <+: ys) (n : Nat) (a : α) : xs.set n a <+: ys.set n a := by
  obtain ⟨zs, rfl⟩ := h
  rw [List.set_append]
  split
  · exact List.prefix_append _ _
  · rw [List.set_eq_of_length_le (by omega)]
    exact List.prefix_append _ _

end Places

/-! ### Lists side by side -/

section SideBySide

variable {α β γ : Type} {xs : List α} {ys : List β}

/-- Functions that agree on the entries of a list have the same results over it, failures
included. -/
theorem mapM_congr {f g : α → Option β} (h : ∀ x ∈ xs, f x = g x) : xs.mapM f = xs.mapM g := by
  induction xs with
  | nil => rfl
  | cons x xs ih =>
      rw [List.mapM_cons, List.mapM_cons, h x List.mem_cons_self,
        ih fun x hmem => h x (List.mem_cons_of_mem _ hmem)]

/-- What a selection keeps of a view of its entries. -/
theorem map_filterMap_sublist {f : α → Option β} {g : β → γ} {view : α → γ}
    (hf : ∀ x y, f x = some y → g y = view x) (xs : List α) :
    ((xs.filterMap f).map g).Sublist (xs.map view) := by
  induction xs with
  | nil => exact .slnil
  | cons x xs ih =>
      cases hx : f x with
      | none => simpa [List.filterMap_cons, hx] using ih.cons (view x)
      | some y => simpa [List.filterMap_cons, hx, hf x y hx] using ih.cons_cons (view x)

/-- Two selections from one list are related if they select related entries, or both none, at each
place. -/
theorem forall₂_filterMap {R : β → γ → Prop} {f : α → Option β} {g : α → Option γ}
    (h : ∀ x ∈ xs, Option.Rel R (f x) (g x)) :
    List.Forall₂ R (xs.filterMap f) (xs.filterMap g) := by
  have hself : List.Forall₂ (fun x y => x = y ∧ x ∈ xs) xs xs :=
    List.forall₂_same.mpr fun x hx => ⟨rfl, hx⟩
  refine List.rel_filterMap ?_ hself
  rintro x _ ⟨rfl, hx⟩
  exact h x hx

/-- Two lists are related place by place if the second is the first with each entry changed by what
stands at its place. -/
theorem forall₂_mapIdx {R : α → β → Prop} {f : Nat → α → β}
    (h : ∀ n x, xs[n]? = some x → R x (f n x)) : List.Forall₂ R xs (xs.mapIdx f) := by
  rw [List.forall₂_iff_get]
  refine ⟨(List.length_mapIdx).symm, fun n hn hn' => ?_⟩
  simpa using h n xs[n] (List.getElem?_eq_getElem hn)

/-- Place by place: what stands on one side has its partner at the same place. -/
theorem exists_getElem?_of_forall₂ {R : α → β → Prop} (h : List.Forall₂ R xs ys) {n : Nat} {x : α}
    (hx : xs[n]? = some x) : ∃ y, ys[n]? = some y ∧ R x y := by
  obtain ⟨hlt, rfl⟩ := List.getElem?_eq_some_iff.mp hx
  obtain ⟨hlength, hget⟩ := List.forall₂_iff_get.mp h
  exact ⟨ys[n], List.getElem?_eq_getElem (hlength ▸ hlt), hget n hlt (hlength ▸ hlt)⟩

/-- An entry on one side has a partner on the other. -/
theorem exists_of_mem_forall₂ {R : α → β → Prop} {y : β} (h : List.Forall₂ R xs ys) (hy : y ∈ ys) :
    ∃ x ∈ xs, R x y := by
  induction h with
  | nil => exact absurd hy List.not_mem_nil
  | cons hxy _ ih =>
      rcases List.mem_cons.mp hy with rfl | hy
      · exact ⟨_, List.mem_cons_self, hxy⟩
      · obtain ⟨x, hx, hxy⟩ := ih hy
        exact ⟨x, List.mem_cons_of_mem _ hx, hxy⟩

end SideBySide

end CilRepair
