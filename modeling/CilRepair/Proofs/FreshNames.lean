import CilRepair.Names.Registry
import CilRepair.Proofs.DigitText

/-!
# Fresh names

What a registry gives out, whatever its source of draws does.  Nothing is assumed of the source, and
a name that is found at all is a good one, so the patience of a search does not matter either.

* `IsWord`, `LooksDrawn` — the shape of a name: letters, and perhaps a number of four digits.
* `NameRegistry.Issues`, `issues_of_generate?` — what a registry gives out and how it changes.
* `NameRegistry.IssuesAll`, `issuesAll_of_generateAll?` — the same for several names.
* `NameRegistry.CallsLead` — the registries that calls lead to, with the names taken since the last
  reset.
* `CallsLead.mem_used` — a taken name is in use until the next reset; with `Issues.free` this
  is why no name is given out twice.

## Design notes

What is proved of a name that was found is the same for the first attempt, a later one and a word
with a number behind it, and so `Issues` says it once, as a step from one registry to the next.
Sequences of steps, of one kind in `IssuesAll` and of every kind in `CallsLead`, go by that and do
not look at draws.

A source of draws is any type with the two operations.  That a search may fail to end is visible in
its patience, and a statement about what is found holds for each patience; when something is found
at all is the subject of another module.
-/

namespace CilRepair

/-! ### The shape of a name -/

/-- The text consists of a number of ASCII letters. -/
def IsWord (length : Nat) (text : String) : Prop :=
  text.length = length ∧ ∀ c ∈ text.toList, c.isAlpha = true

/-- **The text looks like a drawn name:** so many letters, and nothing or a number of four digits
behind them. -/
def LooksDrawn (length : Nat) (name : String) : Prop :=
  IsWord length name ∨
    ∃ word n, IsWord length word ∧ 1000 ≤ n ∧ n ≤ 9999 ∧ name = word ++ natText n

theorem isAlpha_letterChar (index : Fin 52) : (letterChar index).isAlpha = true := by
  revert index
  decide

theorem Digit.toChar_ne_point (d : Digit) : d.toChar ≠ '.' := by
  revert d
  decide

/-- A number has no point in it, -/
theorem natText_point_notMem (n : Nat) : '.' ∉ (natText n).toList := by
  rw [natText, String.toList_ofList, digitChars, List.mem_map]
  rintro ⟨d, -, hd⟩
  exact d.toChar_ne_point hd

/-- and a word has none. -/
theorem IsWord.point_notMem {length : Nat} {word : String} (h : IsWord length word) :
    '.' ∉ word.toList := by
  intro hpoint
  exact absurd (h.2 _ hpoint) (by decide)

/-- A drawn name has no point in it, so it can be the last part of a full name only as a whole. -/
theorem LooksDrawn.point_notMem {length : Nat} {name : String} (h : LooksDrawn length name) :
    '.' ∉ name.toList := by
  rcases h with h | ⟨word, n, hword, -, -, rfl⟩
  · exact h.point_notMem
  · rw [String.toList_append, List.mem_append]
    rintro (hpoint | hpoint)
    · exact hword.point_notMem hpoint
    · exact natText_point_notMem n hpoint

/-- A drawn name has at least one letter. -/
theorem LooksDrawn.ne_empty {length : Nat} {name : String} (h : LooksDrawn length name)
    (hlength : 0 < length) : name ≠ "" := by
  rintro rfl
  rcases h with h | ⟨word, n, hword, -, -, hempty⟩
  · exact absurd h.1 (by simp; omega)
  · have hzero := congrArg String.length hempty
    rw [String.length_append, hword.1, String.length_empty] at hzero
    omega

namespace NameRegistry

variable {σ : Type}

/-! ### What is given out -/

/-- **What a registry gives out,** and what it is after that. -/
structure Issues (r : NameRegistry σ) (name : String) (r' : NameRegistry σ) : Prop where
  shape : LooksDrawn r.length name
  free : name ∉ r.used
  used : r'.used = name :: r.used
  length : r'.length = r.length

/-- **What a registry gives out one after the other,** and what it is after that. -/
structure IssuesAll (r : NameRegistry σ) (names : List String) (r' : NameRegistry σ) : Prop where
  shape : ∀ name ∈ names, LooksDrawn r.length name
  nodup : names.Nodup
  free : ∀ name ∈ names, name ∉ r.used
  used : r'.used = names.reverse ++ r.used
  length : r'.length = r.length

section

variable {r r' r'' : NameRegistry σ} {name : String} {names : List String}

/-- No registry gives out the empty name, for its names have a positive length. -/
theorem Issues.ne_empty (h : r.Issues name r') : name ≠ "" := h.shape.ne_empty r.length_pos

theorem IssuesAll.nil (r : NameRegistry σ) : r.IssuesAll [] r :=
  ⟨List.forall_mem_nil _, List.nodup_nil, List.forall_mem_nil _, rfl, rfl⟩

/-- One name, and others after it.  The others are free in a registry that has the first one in use,
so they differ from it. -/
theorem IssuesAll.cons (h : r.Issues name r') (h' : r'.IssuesAll names r'') :
    r.IssuesAll (name :: names) r'' where
  shape := List.forall_mem_cons.mpr ⟨h.shape, h.length ▸ h'.shape⟩
  nodup := by
    refine List.nodup_cons.mpr ⟨fun hname => h'.free name hname ?_, h'.nodup⟩
    rw [h.used]
    exact List.mem_cons_self
  free := by
    refine List.forall_mem_cons.mpr ⟨h.free, fun other hother hused => h'.free other hother ?_⟩
    rw [h.used]
    exact List.mem_cons_of_mem _ hused
  used := by
    rw [h'.used, h.used, List.reverse_cons, List.append_assoc, List.singleton_append]
  length := h'.length.trans h.length

end

/-! ### Reservations -/

/-- A name that is reserved is in use afterwards, unless it is empty. -/
theorem mem_used_reserve_iff {r : NameRegistry σ} {name other : String} :
    other ∈ (r.reserve name).2.used ↔ other = name ∧ name ≠ "" ∨ other ∈ r.used := by
  rw [reserve]
  split
  · next htaken =>
      constructor
      · exact Or.inr
      · rintro (⟨rfl, hne⟩ | hused)
        · simpa [hne, contains] using htaken
        · exact hused
  · next htaken =>
      have hne : name ≠ "" := by
        rintro rfl
        simp at htaken
      simp [hne]

/-- To reserve a name does not change how long new ones are. -/
theorem length_reserve (r : NameRegistry σ) (name : String) :
    (r.reserve name).2.length = r.length := by
  rw [reserve]
  split <;> rfl

/-! ### One name -/

variable [DrawSource σ]

/-- So many letters are drawn as were asked for. -/
theorem drawLetters_spec (n : Nat) (s : σ) :
    (drawLetters n s).1.length = n ∧ ∀ c ∈ (drawLetters n s).1, c.isAlpha = true := by
  induction n generalizing s with
  | zero => exact ⟨rfl, fun _ hc => absurd hc List.not_mem_nil⟩
  | succ n ih =>
      obtain ⟨hlength, hletters⟩ := ih (DrawSource.letter s).2
      refine ⟨congrArg (· + 1) hlength, fun c hc => ?_⟩
      rcases List.mem_cons.mp hc with rfl | hc
      · exact isAlpha_letterChar _
      · exact hletters c hc

theorem isWord_drawName (length : Nat) (s : σ) : IsWord length (drawName length s).1 := by
  obtain ⟨hlength, hletters⟩ := drawLetters_spec length s
  refine ⟨?_, fun c hc => hletters c ?_⟩
  · rw [drawName, String.length_ofList, hlength]
  · rwa [drawName, String.toList_ofList] at hc

/-- What a series of draws may end with. -/
def Drawn.Fits (used : List String) (length : Nat) : Drawn → Prop
  | .free name => IsWord length name ∧ name ∉ used
  | .taken name => IsWord length name

/-- A search ends with a free word, or with the last word that it drew.  Of the second it is only
said what it looks like, and a number follows it. -/
theorem fits_drawUntilFree (used : List String) (length attempts : Nat) (s : σ) :
    (drawUntilFree used length attempts s).1.Fits used length := by
  induction attempts generalizing s with
  | zero =>
      rw [drawUntilFree]
      dsimp only
      split
      · exact isWord_drawName length s
      · next hfree => exact ⟨isWord_drawName length s, by simpa using hfree⟩
  | succ attempts ih =>
      rw [drawUntilFree]
      dsimp only
      split
      · exact ih _
      · next hfree => exact ⟨isWord_drawName length s, by simpa using hfree⟩

/-- A word with a number that is found is free, and the number has four digits.  By induction on the
patience of the search. -/
theorem appendNumber?_eq_some {used : List String} {word : String} {patience : Nat} {s s' : σ}
    {name : String} (h : appendNumber? used word patience s = some (name, s')) :
    name ∉ used ∧ ∃ n, 1000 ≤ n ∧ n ≤ 9999 ∧ name = word ++ natText n := by
  induction patience generalizing s with
  | zero => exact absurd h (by simp [appendNumber?])
  | succ patience ih =>
      rw [appendNumber?] at h
      dsimp only at h
      split at h
      · exact ih h
      · next hfree =>
          obtain ⟨rfl, -⟩ := Prod.mk.inj (Option.some.inj h)
          refine ⟨by simpa using hfree, suffixNumber (DrawSource.suffix s).1, ?_, ?_, rfl⟩
          · exact Nat.le_add_right 1000 _
          · have := (DrawSource.suffix s).1.isLt
            rw [suffixNumber]
            omega

/-- **A name that is found is drawn and free,** and it is in use from then on.  It is a free word,
or a taken one with a number behind it. -/
theorem issues_of_generate? {r r' : NameRegistry σ} {patience : Nat} {name : String}
    (h : r.generate? patience = some (name, r')) : r.Issues name r' := by
  have hfits := fits_drawUntilFree r.used r.length (r.attempts - 1) r.source
  obtain ⟨⟨found, source⟩, hfound, heq⟩ := Option.map_eq_some_iff.mp h
  obtain ⟨rfl, rfl⟩ := Prod.mk.inj heq
  cases hdrawn : (drawUntilFree r.used r.length (r.attempts - 1) r.source).1 with
  | free word =>
      rw [hdrawn] at hfits hfound
      obtain ⟨rfl, rfl⟩ := Prod.mk.inj (Option.some.inj hfound)
      exact ⟨.inl hfits.1, hfits.2, rfl, rfl⟩
  | taken word =>
      rw [hdrawn] at hfits hfound
      obtain ⟨hfree, n, hlow, hhigh, rfl⟩ := appendNumber?_eq_some hfound
      exact ⟨.inr ⟨word, n, hfits, hlow, hhigh, rfl⟩, hfree, rfl, rfl⟩

/-! ### Several names -/

/-- **All names that are found are drawn, free and different.**  By induction on how many are asked
for. -/
theorem issuesAll_of_generateAll? {patience n : Nat} {r r' : NameRegistry σ} {names : List String}
    (h : generateAll? patience n r = some (names, r')) :
    names.length = n ∧ r.IssuesAll names r' := by
  induction n generalizing r names with
  | zero =>
      obtain ⟨rfl, rfl⟩ := Prod.mk.inj (Option.some.inj h)
      exact ⟨rfl, .nil r⟩
  | succ n ih =>
      rw [generateAll?] at h
      simp only [Option.bind_eq_bind, Option.bind_eq_some_iff, Option.pure_def, Option.some.injEq,
        Prod.exists, Prod.mk.injEq] at h
      obtain ⟨name, middle, hfirst, rest, last, hrest, rfl, rfl⟩ := h
      obtain ⟨hlength, hissues⟩ := ih hrest
      exact ⟨congrArg (· + 1) hlength, .cons (issues_of_generate? hfirst) hissues⟩

/-! ### Calls -/

/-- **The registries that calls lead to,** and the names that were given out or reserved since the
last reset. -/
inductive CallsLead (start : NameRegistry σ) : List String → NameRegistry σ → Prop
  | start : CallsLead start [] start
  | generate {taken : List String} {r r' : NameRegistry σ} {patience : Nat} {name : String}
      (h : CallsLead start taken r) (hname : r.generate? patience = some (name, r')) :
      CallsLead start (name :: taken) r'
  | reserve {taken : List String} {r : NameRegistry σ} (h : CallsLead start taken r)
      (name : String) : CallsLead start (name :: taken) (r.reserve name).2
  | reset {taken : List String} {r : NameRegistry σ} (h : CallsLead start taken r) :
      CallsLead start [] r.reset

variable {start r : NameRegistry σ} {taken : List String}

/-- No call changes how long names are. -/
theorem CallsLead.length_eq (h : CallsLead start taken r) : r.length = start.length := by
  induction h with
  | start => rfl
  | generate _ hname ih => exact (issues_of_generate? hname).length.trans ih
  | reserve _ name ih => exact (length_reserve _ name).trans ih
  | reset _ ih => exact ih

/-- **A taken name stays in use** until the next reset.  The empty name cannot be taken.  By
induction on the calls: a reset takes nothing over, and every other call only adds to what is in
use. -/
theorem CallsLead.mem_used (h : CallsLead start taken r) {name : String} (hname : name ∈ taken)
    (hne : name ≠ "") : name ∈ r.used := by
  induction h with
  | start | reset => exact absurd hname List.not_mem_nil
  | generate _ hissued ih =>
      rw [(issues_of_generate? hissued).used]
      exact (List.mem_cons.mp hname).elim (fun h => h ▸ List.mem_cons_self)
        fun h => List.mem_cons_of_mem _ (ih h)
  | reserve _ reserved ih =>
      rw [mem_used_reserve_iff]
      exact (List.mem_cons.mp hname).elim (fun h => .inl ⟨h, h ▸ hne⟩) fun h => .inr (ih h)

end NameRegistry

end CilRepair
