import CilRepair.Proofs.NewNames

/-!
# Free numbers

A name that is taken gets a number behind it, and numbers are drawn until the result is free.
There are nine thousand of them, all different in a text, so one is free as long as fewer names are
in use.  The search itself knows no bound: it ends with the first number drawn that is free, however
late that comes, and where no number is free it does not end.

* `numbered`, `exists_numbered_notMem` — the numbers behind a name, and that one is free.
* `suffixAt`, `EveryNumberComes` — the numbers that a source draws.
* `isSome_appendNumber?_iff`, `appendNumber?_of_le` — what a search finds, and when.
* `NameRegistry.NumbersSpent` — a registry in which all numbers behind a name are in use.
* `NameRegistry.Gives`, `NameRegistry.StuckOn` — a registry that gives a name, and one that cannot.
* `NameRegistry.free_numbers_suffice` — which of the two a registry is.

## Design notes

The search for a number has a patience in the model, for the program's own search has no bound and
may not end.  A statement about the program is one that does not mention it: `Gives` asks for some
patience that is enough and the same result with every greater one, and failure is failure with
each.

That a free number exists and that a search finds it are two things.  The first is counting, and
holds for every registry with fewer than nine thousand names.  The second needs the source to come
to the number; a source that keeps drawing taken ones would search for ever, and the hypothesis
`EveryNumberComes` says exactly that this does not happen.
-/

namespace CilRepair

/-! ### The numbers behind a name -/

/-- A name with a number behind it. -/
def numbered (word : String) (index : Fin 9000) : String := word ++ natText (suffixNumber index)

variable {word name : String} {used : List String}

/-- Different numbers behind a name make different names. -/
theorem numbered_injective (word : String) : Function.Injective (numbered word) := by
  intro i j h
  have htext : natText (suffixNumber i) = natText (suffixNumber j) :=
    (String.append_right_inj word).mp h
  have hnumber : 1000 + i.val = 1000 + j.val := natText_injective htext
  exact Fin.ext (Nat.add_left_cancel hnumber)

/-- These are the numbers of four digits. -/
theorem forall_numbered_mem_iff : (∀ index, numbered word index ∈ used) ↔
    ∀ n, 1000 ≤ n → n ≤ 9999 → word ++ natText n ∈ used := by
  constructor
  · intro h n hlow hhigh
    have hnumber : suffixNumber ⟨n - 1000, by omega⟩ = n := Nat.add_sub_cancel' hlow
    exact hnumber ▸ h ⟨n - 1000, by omega⟩
  · intro h index
    exact h _ (Nat.le_add_right 1000 _) (Nat.add_le_add_left (Nat.le_of_lt_succ index.isLt) 1000)

/-- **One of the numbers is free** if fewer names are in use than there are numbers.  Otherwise
different numbers would give as many different names that are in use. -/
theorem exists_numbered_notMem (h : used.length < 9000) (word : String) :
    ∃ index, numbered word index ∉ used := by
  by_contra hall
  rw [not_exists_not] at hall
  have hdistinct : (List.ofFn (numbered word)).Nodup :=
    List.nodup_ofFn.mpr (numbered_injective word)
  have hused : List.ofFn (numbered word) ⊆ used := by
    intro name hname
    obtain ⟨index, rfl⟩ := List.mem_ofFn.mp hname
    exact hall index
  have hle : (List.ofFn (numbered word)).length ≤ used.length :=
    (hdistinct.subperm hused).length_le
  rw [List.length_ofFn] at hle
  exact Nat.not_lt.mpr hle h

namespace NameRegistry

variable {σ : Type} {r : NameRegistry σ}

theorem contains_iff : r.contains name = true ↔ name ∈ r.used := List.contains_iff_mem

/-- **All numbers behind a name are in use.** -/
def NumbersSpent (r : NameRegistry σ) (word : String) : Prop :=
  ∀ n, 1000 ≤ n → n ≤ 9999 → r.contains (word ++ natText n) = true

/-- Numbers are in use by their texts. -/
theorem numbersSpent_iff : r.NumbersSpent word ↔ ∀ index, numbered word index ∈ r.used := by
  simp only [NumbersSpent, contains_iff, forall_numbered_mem_iff]

/-- So the numbers behind no name are spent while few names are in use. -/
theorem not_numbersSpent_of_lt (h : r.size < 9000) (word : String) : ¬ r.NumbersSpent word := by
  intro hspent
  obtain ⟨index, hfree⟩ := exists_numbered_notMem h word
  exact hfree (numbersSpent_iff.mp hspent index)

end NameRegistry

/-! ### The numbers that are drawn -/

section Source

variable {σ : Type} [DrawSource σ]

/-- The source after some numbers. -/
def sourceAfter : Nat → σ → σ
  | 0, s => s
  | n + 1, s => sourceAfter n (DrawSource.suffix s).2

/-- The number that a source draws after so many others. -/
def suffixAt (s : σ) (n : Nat) : Fin 9000 := (DrawSource.suffix (sourceAfter n s)).1

theorem suffixAt_succ (s : σ) (n : Nat) :
    suffixAt s (n + 1) = suffixAt (DrawSource.suffix s).2 n := rfl

/-- **The source draws every number,** sooner or later. -/
def EveryNumberComes (s : σ) : Prop := ∀ index, ∃ n, suffixAt s n = index

end Source

namespace NameRegistry

variable {σ : Type} [DrawSource σ] {s : σ}

/-! ### The search -/

theorem appendNumber?_succ (used : List String) (word : String) (patience : Nat) (s : σ) :
    appendNumber? used word (patience + 1) s =
      if numbered word (suffixAt s 0) ∈ used then
        appendNumber? used word patience (DrawSource.suffix s).2
      else some (numbered word (suffixAt s 0), (DrawSource.suffix s).2) := by
  rw [appendNumber?]
  simp only [List.contains_iff_mem]
  rfl

/-- **A search finds a name** just if one of the numbers that it may draw is free.  By induction on
the patience. -/
theorem isSome_appendNumber?_iff {patience : Nat} :
    (appendNumber? used word patience s).isSome = true ↔
      ∃ n < patience, numbered word (suffixAt s n) ∉ used := by
  induction patience generalizing s with
  | zero => simp [appendNumber?]
  | succ patience ih =>
      rw [appendNumber?_succ]
      split
      · next htaken =>
          rw [ih]
          constructor
          · rintro ⟨n, hn, hfree⟩
            exact ⟨n + 1, Nat.succ_lt_succ hn, hfree⟩
          · rintro ⟨n, hn, hfree⟩
            cases n with
            | zero => exact absurd htaken hfree
            | succ n => exact ⟨n, Nat.lt_of_succ_lt_succ hn, hfree⟩
      · next hfree => exact iff_of_true rfl ⟨0, Nat.zero_lt_succ _, hfree⟩

/-- Where all numbers are in use, no search finds one. -/
theorem appendNumber?_eq_none (h : ∀ index, numbered word index ∈ used) (patience : Nat) (s : σ) :
    appendNumber? used word patience s = none := by
  rw [← Option.not_isSome_iff_eq_none, isSome_appendNumber?_iff]
  rintro ⟨n, -, hfree⟩
  exact hfree (h _)

/-- What is found stays found, so that a search is one search whatever its patience.  By induction
on the patience that was enough. -/
theorem appendNumber?_of_le {patience more : Nat} {found : String × σ}
    (h : appendNumber? used word patience s = some found) (hle : patience ≤ more) :
    appendNumber? used word more s = some found := by
  induction patience generalizing s more with
  | zero => exact absurd h (by simp [appendNumber?])
  | succ patience ih =>
      obtain ⟨more, rfl⟩ := Nat.exists_eq_add_one.mpr (Nat.zero_lt_of_lt hle)
      rw [appendNumber?_succ] at h ⊢
      split at h
      · next htaken =>
          rw [if_pos htaken]
          exact ih h (Nat.le_of_succ_le_succ hle)
      · next hfree => rwa [if_neg hfree]

/-! ### Registries -/

variable (r : NameRegistry σ)

/-- How the letters of a new name come out, and the source from which its number would be drawn. -/
def lastDraw : Drawn × σ := drawUntilFree r.used r.length (r.attempts - 1) r.source

/-- **The registry gives a name:** with enough patience, and then the same with more. -/
def Gives (name : String) (r' : NameRegistry σ) : Prop :=
  ∃ enough, ∀ patience, enough ≤ patience → r.generate? patience = some (name, r')

/-- **The registry cannot give a name:** its last draw is taken, and so is every number behind
it. -/
def StuckOn (word : String) : Prop := r.lastDraw.1 = .taken word ∧ r.NumbersSpent word

variable {r}

/-- A registry whose last draw is free gives it, -/
theorem generate?_of_free (h : r.lastDraw.1 = .free name) (patience : Nat) :
    r.generate? patience =
      some (name, { r with used := name :: r.used, source := r.lastDraw.2 }) := by
  rw [lastDraw] at h
  rw [generate?, lastDraw]
  dsimp only
  rw [h]
  rfl

/-- and one whose last draw is taken looks for a number. -/
theorem generate?_of_taken (h : r.lastDraw.1 = .taken word) (patience : Nat) :
    r.generate? patience = (appendNumber? r.used word patience r.lastDraw.2).map
      fun found => (found.1, { r with used := found.1 :: r.used, source := found.2 }) := by
  rw [lastDraw] at h
  rw [generate?, lastDraw]
  dsimp only
  rw [h]

/-- A registry whose last draw is taken gives a name just if the source comes to a free number.  The
number of draws until then is the patience that is enough. -/
theorem exists_gives_iff_of_taken (h : r.lastDraw.1 = .taken word) :
    (∃ name r', r.Gives name r') ↔ ∃ n, numbered word (suffixAt r.lastDraw.2 n) ∉ r.used := by
  constructor
  · rintro ⟨name, r', enough, hgiven⟩
    have hfound := hgiven enough (Nat.le_refl enough)
    rw [generate?_of_taken h, Option.map_eq_some_iff] at hfound
    obtain ⟨found, hfound, -⟩ := hfound
    obtain ⟨n, -, hfree⟩ := isSome_appendNumber?_iff.mp (Option.isSome_of_eq_some hfound)
    exact ⟨n, hfree⟩
  · rintro ⟨n, hfree⟩
    obtain ⟨found, hfound⟩ := Option.isSome_iff_exists.mp
      (isSome_appendNumber?_iff.mpr ⟨n, Nat.lt_succ_self n, hfree⟩)
    refine ⟨found.1, { r with used := found.1 :: r.used, source := found.2 }, n + 1,
      fun patience hle => ?_⟩
    rw [generate?_of_taken h, appendNumber?_of_le hfound hle, Option.map_some]

/-- **A registry gives a name unless it is stuck,** if its source comes to every number.  A last
draw that is free is given; one that is taken is stuck just if its numbers are spent. -/
theorem exists_gives_iff (hsource : EveryNumberComes r.lastDraw.2) :
    (∃ name r', r.Gives name r') ↔ ∀ word, ¬ r.StuckOn word := by
  cases hlast : r.lastDraw.1 with
  | free name =>
      refine iff_of_true ⟨name, _, 0, fun patience _ => generate?_of_free hlast patience⟩ ?_
      rintro word ⟨htaken, -⟩
      exact absurd (hlast.symm.trans htaken) (by simp)
  | taken word =>
      rw [exists_gives_iff_of_taken hlast]
      constructor
      · rintro ⟨n, hfree⟩ other ⟨htaken, hspent⟩
        obtain rfl : word = other := Drawn.taken.inj (hlast.symm.trans htaken)
        exact hfree (numbersSpent_iff.mp hspent _)
      · intro hfree
        by_contra hnone
        rw [not_exists] at hnone
        refine hfree word ⟨hlast, numbersSpent_iff.mpr fun index => ?_⟩
        obtain ⟨n, rfl⟩ := hsource index
        exact not_not.mp (hnone n)

/-- **A free number is there while few names are in use, and a search without one has no end.**
With fewer names in use than there are numbers of four digits, one of the numbers behind any name is
free, and a registry whose source comes to every number gives a name, the same with any patience
that is enough.  Where all numbers behind a name are in use, no search finds one, whatever is drawn,
and a registry whose last draw is that name gives none.  A source that comes to every number leaves
no other way to be stuck. -/
theorem free_numbers_suffice {σ : Type} [DrawSource σ] (r : NameRegistry σ) :
    (r.size < 9000 →
      (∀ word, ∃ n, 1000 ≤ n ∧ n ≤ 9999 ∧ r.contains (word ++ natText n) = false) ∧
        (EveryNumberComes r.lastDraw.2 → ∃ name r', r.Gives name r')) ∧
      (∀ word, r.NumbersSpent word →
        (∀ (τ : Type) [DrawSource τ] (patience : Nat) (source : τ),
          appendNumber? r.used word patience source = none) ∧
          (r.lastDraw.1 = .taken word → ∀ patience, r.generate? patience = none)) ∧
        (EveryNumberComes r.lastDraw.2 →
          ((∃ name r', r.Gives name r') ↔ ∀ word, ¬ r.StuckOn word)) := by
  refine ⟨fun hsize => ?_, fun word hspent => ?_, exists_gives_iff⟩
  · refine ⟨fun word => ?_, fun hsource => ?_⟩
    · simpa [NumbersSpent] using not_numbersSpent_of_lt hsize word
    · exact (exists_gives_iff hsource).mpr fun word hstuck =>
        not_numbersSpent_of_lt hsize word hstuck.2
  · have hused := numbersSpent_iff.mp hspent
    refine ⟨fun τ _ => appendNumber?_eq_none hused, fun htaken patience => ?_⟩
    rw [generate?_of_taken htaken, appendNumber?_eq_none hused, Option.map_none]

/-! ### A source that counts -/

/-- A source that counts draws the numbers in turn, -/
theorem val_suffixAt_oneLetter (s : OneLetter) (n : Nat) :
    (suffixAt s n).val = (s.next.val + n) % 9000 := by
  induction n generalizing s with
  | zero => exact (Nat.mod_eq_of_lt s.next.isLt).symm
  | succ n ih =>
      rw [suffixAt_succ, ih]
      change ((s.next.val + 1) % 9000 + n) % 9000 = _
      omega

/-- and so it comes to all of them. -/
theorem everyNumberComes_oneLetter (s : OneLetter) : EveryNumberComes s := by
  intro index
  have hnext := s.next.isLt
  have hindex := index.isLt
  refine ⟨9000 - s.next.val + index.val, Fin.ext ?_⟩
  rw [val_suffixAt_oneLetter]
  omega

/-- A registry that has also given out every number behind its only letter. -/
def exhaustedNames : NameRegistry OneLetter :=
  { spentNames with used := "A" :: (List.range 9000).map fun i => "A" ++ natText (1000 + i) }

/-- With its only letter taken the registry still gives a name; with all numbers behind it taken it
gives none. -/
theorem exhaustedNames_stuck :
    spentNames.size < 9000 ∧ (∃ name r', spentNames.Gives name r') ∧
      exhaustedNames.StuckOn "A" ∧ ∀ patience, exhaustedNames.generate? patience = none := by
  have hsize : spentNames.size < 9000 := by decide
  have hlast : exhaustedNames.lastDraw.1 = .taken "A" := rfl
  have hspent : exhaustedNames.NumbersSpent "A" := by
    intro n hlow hhigh
    refine contains_iff.mpr (List.mem_cons_of_mem _ (List.mem_map.mpr ⟨n - 1000, ?_, ?_⟩))
    · exact List.mem_range.mpr (by omega)
    · rw [Nat.add_sub_cancel' hlow]
  obtain ⟨hfew, -⟩ := free_numbers_suffice spentNames
  obtain ⟨-, hnone, -⟩ := free_numbers_suffice exhaustedNames
  exact ⟨hsize, (hfew hsize).2 (everyNumberComes_oneLetter _), ⟨hlast, hspent⟩,
    (hnone "A" hspent).2 hlast⟩

end NameRegistry

end CilRepair
