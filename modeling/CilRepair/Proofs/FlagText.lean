import CilRepair.Proofs.DigitText
import CilRepair.Proofs.SplitText
import Mathlib.Data.List.TakeWhile

/-!
# Text of flag sets

A set of flags is read back from its text, with the bits that have no name.

* `FlagTable.cover_spec` — printed names and the nameless rest account for every bit of a set.
* `FlagTable.WellNamed` — the names of a table are told apart in a text; all four tables are so.
* `FlagTable.parse?_render` — the set that a text spells is the one that was printed.

## Design notes

A set is printed greedily: a name is printed if it covers a bit that no name before it has covered,
and what is left at the end is printed as a number.  `cover_spec` is the invariant of that loop.  It
asks only that bits are accounted for and that none is invented, so overlapping and composite names
are no problem; a name that covers nothing new may be left out.

Sets of bits are compared by `testBit`.  `BitsIn` turns inclusion in both directions into equality
of numbers, which is how the printed names and the rest add up to the set.

A table is well named if each of its names is read back alone.  This is decided for the four tables,
and nothing else about them enters a proof.
-/

namespace CilRepair

/-! ### Bits -/

/-- Numbers without a common bit are added by putting their bits together. -/
theorem add_eq_or_of_and_eq_zero {x y : Nat} (h : x &&& y = 0) : x + y = x ||| y := by
  have hlt : x + y < 2 ^ (x + y) := Nat.lt_two_pow_self
  have hx : x % 2 ^ (x + y) = x := Nat.mod_eq_of_lt (by omega)
  have hy : y % 2 ^ (x + y) = y := Nat.mod_eq_of_lt (by omega)
  have hzero : BitVec.ofNat (x + y) x &&& BitVec.ofNat (x + y) y = 0#(x + y) := by
    rw [← BitVec.toNat_inj, BitVec.toNat_and, BitVec.toNat_ofNat, BitVec.toNat_ofNat, hx, hy, h]
    rfl
  have hsum := congrArg BitVec.toNat (BitVec.add_eq_or_of_and_eq_zero _ _ hzero)
  rwa [BitVec.toNat_add, BitVec.toNat_or, BitVec.toNat_ofNat, BitVec.toNat_ofNat, hx, hy,
    Nat.mod_eq_of_lt hlt] at hsum

/-- Subtracting the common bits takes them away.  There is no borrow, since what is subtracted is
part of the number; so the difference is an exclusive or. -/
theorem testBit_sub_and (x mask i : Nat) :
    (x - (x &&& mask)).testBit i = (x.testBit i && !mask.testBit i) := by
  have hzero : (x &&& mask) &&& (x ^^^ (x &&& mask)) = 0 := by
    refine Nat.eq_of_testBit_eq fun j => ?_
    rw [Nat.testBit_and, Nat.testBit_and, Nat.testBit_xor, Nat.testBit_and, Nat.zero_testBit]
    cases x.testBit j <;> cases mask.testBit j <;> rfl
  have hall : (x &&& mask) ||| (x ^^^ (x &&& mask)) = x := by
    refine Nat.eq_of_testBit_eq fun j => ?_
    rw [Nat.testBit_or, Nat.testBit_and, Nat.testBit_xor, Nat.testBit_and]
    cases x.testBit j <;> cases mask.testBit j <;> rfl
  have hsub : x - (x &&& mask) = x ^^^ (x &&& mask) := by
    have hsum := add_eq_or_of_and_eq_zero hzero
    rw [hall] at hsum
    omega
  rw [hsub, Nat.testBit_xor, Nat.testBit_and]
  cases x.testBit i <;> cases mask.testBit i <;> rfl

/-- Every bit of one number is a bit of another. -/
def BitsIn (x y : Nat) : Prop := ∀ i, x.testBit i = true → y.testBit i = true

/-- A set with fewer bits is a smaller number. -/
theorem BitsIn.le {x y : Nat} (h : BitsIn x y) : x ≤ y := by
  have hor : x ||| y = y := by
    refine Nat.eq_of_testBit_eq fun i => ?_
    have hi := h i
    rw [Nat.testBit_or]
    cases hx : x.testBit i with
    | false => rfl
    | true => rw [hi hx]; rfl
  rw [← hor]
  exact Nat.left_le_or

theorem BitsIn.eq {x y : Nat} (h : BitsIn x y) (h' : BitsIn y x) : x = y :=
  Nat.le_antisymm h.le h'.le

namespace FlagTable

/-- All bits of some named flags, added to others. -/
def joined (entries : List (String × Nat)) (bits : Nat) : Nat :=
  entries.foldl (fun bits entry => bits ||| entry.2) bits

/-- Bits that were there at the beginning are there at the end. -/
theorem joined_or (entries : List (String × Nat)) (a b : Nat) :
    joined entries (a ||| b) = a ||| joined entries b := by
  induction entries generalizing b with
  | nil => rfl
  | cons entry entries ih =>
      rw [joined, List.foldl_cons, Nat.or_assoc]
      exact ih _

theorem joined_cons (entry : String × Nat) (entries : List (String × Nat)) (bits : Nat) :
    joined (entry :: entries) bits = entry.2 ||| joined entries bits := by
  rw [joined, List.foldl_cons, Nat.or_comm]
  exact joined_or entries entry.2 bits

/-- **Printed names and the rest account for every bit** that is still unaccounted for, and for no
bit that the set does not have.  By induction on the names. -/
theorem cover_spec (value : Nat) (names : List (String × Nat)) (remaining : Nat)
    (h : BitsIn remaining value) :
    ∃ entries left, cover value names remaining = (entries.map (·.1), left) ∧
      (∀ entry ∈ entries, entry ∈ names) ∧ BitsIn left value ∧
      BitsIn remaining (joined entries left) ∧ BitsIn (joined entries left) value := by
  induction names generalizing remaining with
  | nil => exact ⟨[], remaining, rfl, fun _ h => h, h, fun _ h => h, h⟩
  | cons entry names ih =>
      obtain ⟨name, bits⟩ := entry
      rw [cover]
      split
      · next hprinted =>
          -- A name is printed only if the set has all its bits, and these are then accounted for.
          have hbits : BitsIn bits value := by
            intro i hi
            rw [← hprinted.2.1, Nat.testBit_and, Bool.and_eq_true] at hi
            exact hi.1
          have hrest : BitsIn (remaining - (remaining &&& bits)) value := by
            intro i hi
            rw [testBit_sub_and, Bool.and_eq_true] at hi
            exact h i hi.1
          obtain ⟨entries, left, heq, hmem, hleft, hcover, hvalue⟩ := ih _ hrest
          refine ⟨(name, bits) :: entries, left, by rw [heq]; rfl, ?_, hleft, ?_, ?_⟩
          · rintro entry (_ | ⟨_, hentry⟩)
            · exact List.mem_cons_self
            · exact List.mem_cons_of_mem _ (hmem entry hentry)
          · intro i hi
            rw [joined_cons, Nat.testBit_or, Bool.or_eq_true]
            by_cases hbit : bits.testBit i = true
            · exact Or.inl hbit
            · exact Or.inr (hcover i (by rw [testBit_sub_and, hi]; simp [hbit]))
          · intro i hi
            rw [joined_cons, Nat.testBit_or, Bool.or_eq_true] at hi
            exact hi.elim (hbits i) (hvalue i)
      · -- A name that is not printed accounts for nothing.
        obtain ⟨entries, left, heq, hmem, hrest⟩ := ih remaining h
        exact ⟨entries, left, heq, fun entry he => List.mem_cons_of_mem _ (hmem entry he), hrest⟩

/-- **A set is its printed names and the rest.** -/
theorem exists_cover (value : Nat) (names : List (String × Nat)) :
    ∃ entries left, cover value names value = (entries.map (·.1), left) ∧
      (∀ entry ∈ entries, entry ∈ names) ∧ left ≤ value ∧ joined entries left = value := by
  obtain ⟨entries, left, heq, hmem, hleft, hcover, hvalue⟩ :=
    cover_spec value names value fun _ h => h
  exact ⟨entries, left, heq, hmem, hleft.le, hvalue.eq hcover⟩

end FlagTable

/-! ### Pieces -/

/-- A piece of text that is found again between bars: it is not empty, and it has neither a blank
nor a bar. -/
def IsPiece (cs : List Char) : Prop :=
  cs ≠ [] ∧ ∀ c ∈ cs, isBlank c = false ∧ c ≠ '|'

-- Only the characters of the piece are gone through, not all that there are.
instance (cs : List Char) : Decidable (IsPiece cs) :=
  have := List.decidableBAll (fun c => isBlank c = false ∧ c ≠ '|') cs
  inferInstanceAs (Decidable (_ ∧ _))

/-- Blanks are dropped up to a piece, which begins with none. -/
theorem dropWhile_blanks {blanks piece : List Char} (hblanks : ∀ c ∈ blanks, isBlank c = true)
    (hpiece : IsPiece piece) (rest : List Char) :
    (blanks ++ (piece ++ rest)).dropWhile isBlank = piece ++ rest := by
  rw [List.dropWhile_append_of_pos hblanks]
  cases piece with
  | nil => exact absurd rfl hpiece.1
  | cons c cs =>
      rw [List.cons_append, List.dropWhile_cons, (hpiece.2 c List.mem_cons_self).1,
        if_neg Bool.false_ne_true]

theorem IsPiece.reverse {piece : List Char} (h : IsPiece piece) : IsPiece piece.reverse :=
  ⟨fun heq => h.1 (List.reverse_eq_nil_iff.mp heq), fun c hc => h.2 c (List.mem_reverse.mp hc)⟩

/-- Blanks around a piece are trimmed off. -/
theorem trim_piece {before piece after : List Char} (hpiece : IsPiece piece)
    (hbefore : ∀ c ∈ before, isBlank c = true) (hafter : ∀ c ∈ after, isBlank c = true) :
    trim (before ++ (piece ++ after)) = piece := by
  have hend := dropWhile_blanks (fun c hc => hafter c (List.mem_reverse.mp hc)) hpiece.reverse []
  rw [List.append_nil] at hend
  rw [trim, dropWhile_blanks hbefore hpiece, trimEnd, List.reverse_append, hend,
    List.reverse_reverse]

/-- What stands between two pieces. -/
def bar : List Char := [' ', '|', ' ']

theorem IsPiece.bar_notMem {before piece : List Char} (hpiece : IsPiece piece)
    (hbefore : ∀ c ∈ before, isBlank c = true) : '|' ∉ before ++ piece := by
  rw [List.mem_append, not_or]
  exact ⟨fun h => absurd (hbefore _ h) (by decide), fun h => (hpiece.2 _ h).2 rfl⟩

/-- **Pieces are found again between bars.**  By induction on the pieces; each one is cut off at the
bar behind it, and the blanks of the bars are trimmed. -/
theorem map_trim_splitAtEach {before : List Char} (hbefore : ∀ c ∈ before, isBlank c = true)
    {pieces : List (List Char)} (hne : pieces ≠ []) (h : ∀ piece ∈ pieces, IsPiece piece) :
    (splitAtEach '|' (before ++ bar.intercalate pieces)).map trim = pieces := by
  induction pieces generalizing before with
  | nil => exact absurd rfl hne
  | cons piece pieces ih =>
      have hpiece := h piece List.mem_cons_self
      have hnone : ∀ c ∈ ([] : List Char), isBlank c = true := List.forall_mem_nil _
      have hblank : ∀ c ∈ [' '], isBlank c = true := List.forall_mem_singleton.mpr rfl
      cases pieces with
      | nil =>
          have htrim := trim_piece hpiece hbefore hnone
          rw [List.append_nil] at htrim
          rw [List.intercalate_singleton, splitAtEach_of_notMem (hpiece.bar_notMem hbefore),
            List.map_singleton, htrim]
      | cons next pieces =>
          -- The bar between two pieces has a blank on either side.
          have hsplit : before ++ bar.intercalate (piece :: next :: pieces) =
              (before ++ (piece ++ [' '])) ++
                '|' :: ([' '] ++ bar.intercalate (next :: pieces)) := by
            rw [List.intercalate_cons_cons, bar]
            simp
          have hnotMem : '|' ∉ before ++ (piece ++ [' ']) := by
            rw [← List.append_assoc, List.mem_append, not_or]
            exact ⟨hpiece.bar_notMem hbefore, by decide⟩
          rw [hsplit, splitAtEach_append, splitAtEach_of_notMem hnotMem, List.singleton_append,
            List.map_cons, trim_piece hpiece hbefore hblank,
            ih hblank (List.cons_ne_nil next pieces)
              fun piece hp => h piece (List.mem_cons_of_mem _ hp)]

/-- Pieces between bars are no blank text.  The first piece begins with a character that is no
blank. -/
theorem not_blank_intercalate {pieces : List (List Char)} (hne : pieces ≠ [])
    (h : ∀ piece ∈ pieces, IsPiece piece) : ¬ (trim (bar.intercalate pieces)).isEmpty = true := by
  obtain ⟨piece, pieces, rfl⟩ := List.exists_cons_of_ne_nil hne
  have hpiece := h piece List.mem_cons_self
  obtain ⟨rest, hrest⟩ : ∃ rest, bar.intercalate (piece :: pieces) = piece ++ rest := by
    cases pieces with
    | nil => exact ⟨[], by rw [List.intercalate_singleton, List.append_nil]⟩
    | cons next pieces => exact ⟨_, by rw [List.intercalate_cons_cons, List.append_assoc]⟩
  have hstart := dropWhile_blanks (List.forall_mem_nil _) hpiece rest
  rw [List.nil_append] at hstart
  obtain ⟨c, hc⟩ := List.exists_mem_of_ne_nil piece hpiece.1
  rw [hrest, trim, hstart, trimEnd, List.isEmpty_reverse, List.isEmpty_iff,
    List.dropWhile_eq_nil_iff]
  intro hblank
  have hfalse := hblank c (List.mem_reverse.mpr (List.mem_append_left rest hc))
  rw [(hpiece.2 c hc).1] at hfalse
  exact Bool.false_ne_true hfalse

/-! ### Tables -/

namespace FlagTable

variable {table : FlagTable}

/-- An entry is read back from its text by the table. -/
def Readable (table : FlagTable) (entry : String × Nat) : Prop :=
  IsPiece entry.1.toList ∧ table.piece? entry.1.toList = some entry.2

instance (table : FlagTable) (entry : String × Nat) : Decidable (table.Readable entry) :=
  inferInstanceAs (Decidable (_ ∧ _))

/-- **The names of the table are told apart in a text.** -/
def WellNamed (table : FlagTable) : Prop := ∀ entry ∈ table.names, table.Readable entry

instance (table : FlagTable) : Decidable table.WellNamed :=
  inferInstanceAs (Decidable (∀ entry ∈ table.names, _))

/-- The nameless rest of a set is read back: no name of a table looks like it.  Digits and the
marker in front of them are neither bars nor blanks. -/
theorem readable_hexText {left : Nat} (h : left < Nat.pow 2 table.width) :
    table.Readable ("0x" ++ hexText 1 left, left) := by
  have htext : ("0x" ++ hexText 1 left).toList = '0' :: 'x' :: (hexText 1 left).toList := by
    rw [String.toList_append]
    rfl
  have hdigit : ∀ digit < 16, isBlank (hexChar digit) = false ∧ hexChar digit ≠ '|' := by decide
  rw [Readable, htext]
  refine ⟨⟨List.cons_ne_nil _ _, ?_⟩, hexBits?_hexText 1 h⟩
  intro c hc
  rw [List.mem_cons, List.mem_cons, hexText, String.toList_ofList] at hc
  rcases hc with rfl | rfl | hc
  · decide
  · decide
  · obtain ⟨digit, hlt, rfl⟩ := exists_of_mem_hexDigits hc
    exact hdigit digit hlt

/-- Readable entries are joined one by one. -/
theorem foldlM_readable {entries : List (String × Nat)}
    (h : ∀ entry ∈ entries, table.Readable entry) (bits : Nat) :
    (entries.map (·.1.toList)).foldlM
        (fun bits piece => (table.piece? piece).map (bits ||| ·)) bits =
      some (joined entries bits) := by
  induction entries generalizing bits with
  | nil => rfl
  | cons entry entries ih =>
      rw [List.map_cons, List.foldlM_cons, (h entry List.mem_cons_self).2]
      exact ih (fun entry he => h entry (List.mem_cons_of_mem _ he)) _

/-- **Readable entries are read back together.**  Their text is not blank, and its pieces are
theirs. -/
theorem parse?_intercalate {entries : List (String × Nat)}
    (h : ∀ entry ∈ entries, table.Readable entry) :
    table.parse? (" | ".intercalate (entries.map (·.1))) = some (joined entries 0) := by
  have htext : (" | ".intercalate (entries.map (·.1))).toList =
      bar.intercalate (entries.map (·.1.toList)) := by
    rw [String.toList_intercalate, List.map_map]
    rfl
  have hpieces : ∀ piece ∈ entries.map (·.1.toList), IsPiece piece := by
    intro piece hpiece
    obtain ⟨entry, hentry, rfl⟩ := List.mem_map.mp hpiece
    exact (h entry hentry).1
  rw [parse?, htext]
  by_cases hnone : entries = []
  · rw [hnone]
    rfl
  · have hne : entries.map (·.1.toList) ≠ [] := fun heq => hnone (List.map_eq_nil_iff.mp heq)
    have hsplit := map_trim_splitAtEach (List.forall_mem_nil _) hne hpieces
    have hread := foldlM_readable h 0
    rw [← hsplit, List.foldlM_map] at hread
    rw [if_neg (not_blank_intercalate hne hpieces)]
    exact hread

/-- **A set is read back from its text,** bits without a name included.  Nothing is printed for the
empty set, and nothing is read as it. -/
theorem parse?_render (hnamed : table.WellNamed) {value : Nat} (h : value < Nat.pow 2 table.width) :
    table.parse? (table.render value) = some value := by
  obtain ⟨entries, left, hcover, hmem, hle, hjoined⟩ := exists_cover value table.names
  have hentries : ∀ entry ∈ entries, table.Readable entry := fun entry he =>
    hnamed entry (hmem entry he)
  rw [render, hcover]
  dsimp only
  split
  · next hleft =>
      rw [parse?_intercalate hentries, ← hleft, hjoined]
  · have hreadable : ∀ entry ∈ entries ++ [("0x" ++ hexText 1 left, left)],
        table.Readable entry := by
      intro entry he
      rcases List.mem_append.mp he with he | he
      · exact hentries entry he
      · rw [List.mem_singleton.mp he]
        exact readable_hexText (Nat.lt_of_le_of_lt hle h)
    have hall := parse?_intercalate hreadable
    rw [List.map_append, List.map_singleton] at hall
    rw [hall, joined, List.foldl_append]
    change some (joined entries 0 ||| left) = some value
    rw [Nat.or_comm, ← joined_or, Nat.or_zero, hjoined]

end FlagTable

theorem MethodAccess.wellNamed : MethodAccess.table.WellNamed := by decide

theorem MethodModifiers.wellNamed : MethodModifiers.table.WellNamed := by decide

theorem TypeFlags.wellNamed : TypeFlags.table.WellNamed := by decide

theorem HandlerFlags.wellNamed : HandlerFlags.table.WellNamed := by decide

end CilRepair
