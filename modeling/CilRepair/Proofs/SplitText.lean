import CilRepair.Text.Split
import Mathlib.Data.List.Basic
import Mathlib.Data.List.TakeWhile

/-!
# Pieces of a text

A text that is cut at each separator: what is between two separators has none in it, and to cut a
text at one of them is to cut both sides.

* `splitAtEach_append` — a text with a separator in it.
* `splitAtEach_of_notMem` — a text without.
* `notMem_of_mem_splitAtEach` — no piece has a separator in it.
* `exists_splitAtEach_eq_concat` — the last piece of a text that does not end in a separator.
* `trim_append_of_blank`, `trim_append_blanks` — blanks around a text are trimmed off.
* `map_trim_splitAtEach_trim` — pieces are trimmed, so the text need not be.

## Design notes

Texts are lists of characters here.  Strings are only converted at the edges, where a path or a
selection comes in, since induction on a text follows its characters.

Cutting is stated for any separator and used for two of them, points and commas.  That a separator
is no blank is a hypothesis of the lemmas about trimming and of no other.
-/

namespace CilRepair

variable {separator : Char} {cs : List Char}

/-- There is always a piece. -/
theorem splitAtEach_ne_nil (separator : Char) (cs : List Char) : splitAtEach separator cs ≠ [] := by
  cases cs with
  | nil => exact List.cons_ne_nil _ _
  | cons c cs =>
      rw [splitAtEach]
      split
      · exact List.cons_ne_nil _ _
      · split <;> exact List.cons_ne_nil _ _

/-- A character that is no separator belongs to the first piece. -/
theorem splitAtEach_cons_of_ne {c : Char} (h : c ≠ separator) {piece : List Char}
    {pieces : List (List Char)} (hsplit : splitAtEach separator cs = piece :: pieces) :
    splitAtEach separator (c :: cs) = (c :: piece) :: pieces := by
  rw [splitAtEach, if_neg h, hsplit]

/-- A text without a separator is one piece. -/
theorem splitAtEach_of_notMem (h : separator ∉ cs) : splitAtEach separator cs = [cs] := by
  induction cs with
  | nil => rfl
  | cons c cs ih =>
      rw [List.mem_cons, not_or] at h
      exact splitAtEach_cons_of_ne (Ne.symm h.1) (ih h.2)

/-- **A text with a separator in it is cut on either side.**  The separator belongs to neither. -/
theorem splitAtEach_append (cs rest : List Char) :
    splitAtEach separator (cs ++ separator :: rest) =
      splitAtEach separator cs ++ splitAtEach separator rest := by
  induction cs with
  | nil => exact if_pos rfl
  | cons c cs ih =>
      obtain ⟨piece, pieces, hsplit⟩ := List.exists_cons_of_ne_nil (splitAtEach_ne_nil separator cs)
      rw [hsplit] at ih
      rw [List.cons_append]
      by_cases hc : c = separator
      · rw [splitAtEach, splitAtEach, if_pos hc, if_pos hc, ih, hsplit]
        rfl
      · rw [splitAtEach_cons_of_ne hc ih, splitAtEach_cons_of_ne hc hsplit]
        rfl

/-- **No piece has a separator in it.**  By induction on the text, with the first piece open. -/
theorem notMem_of_mem_splitAtEach {piece : List Char} (h : piece ∈ splitAtEach separator cs) :
    separator ∉ piece := by
  induction cs generalizing piece with
  | nil =>
      rw [List.mem_singleton.mp h]
      exact List.not_mem_nil
  | cons c cs ih =>
      obtain ⟨first, pieces, hsplit⟩ := List.exists_cons_of_ne_nil (splitAtEach_ne_nil separator cs)
      by_cases hc : c = separator
      · rw [splitAtEach, if_pos hc] at h
        rcases List.mem_cons.mp h with rfl | h
        exacts [List.not_mem_nil, ih h]
      · rw [splitAtEach_cons_of_ne hc hsplit] at h
        rw [hsplit] at ih
        rcases List.mem_cons.mp h with rfl | h
        · exact List.not_mem_cons_of_ne_of_not_mem (Ne.symm hc) (ih List.mem_cons_self)
        · exact ih (List.mem_cons_of_mem _ h)

/-- **The last piece has something in it** unless the text ends in a separator.  So a full name that
does not end in a point has a simple name. -/
theorem exists_splitAtEach_eq_concat (hne : cs ≠ []) (hend : cs.getLast? ≠ some separator) :
    ∃ pieces last, splitAtEach separator cs = pieces ++ [last] ∧ last ≠ [] := by
  induction cs with
  | nil => exact absurd rfl hne
  | cons c cs ih =>
      cases cs with
      | nil =>
          have hc : c ≠ separator := fun hc => hend (congrArg some hc)
          exact ⟨[], [c], splitAtEach_cons_of_ne hc rfl, List.cons_ne_nil c []⟩
      | cons d cs =>
          rw [List.getLast?_cons_cons] at hend
          obtain ⟨pieces, last, hsplit, hlast⟩ := ih (List.cons_ne_nil d cs) hend
          by_cases hc : c = separator
          · refine ⟨[] :: pieces, last, ?_, hlast⟩
            rw [splitAtEach, if_pos hc, hsplit, List.cons_append]
          · cases pieces with
            | nil =>
                exact ⟨[], c :: last, splitAtEach_cons_of_ne hc hsplit, List.cons_ne_nil c last⟩
            | cons piece pieces =>
                exact ⟨(c :: piece) :: pieces, last, splitAtEach_cons_of_ne hc hsplit, hlast⟩

/-! ### Blanks around a text -/

section Blanks

variable {blanks : List Char} (hblanks : ∀ c ∈ blanks, isBlank c = true)

include hblanks

/-- Blanks in front are trimmed off. -/
theorem trim_append_of_blank (cs : List Char) : trim (blanks ++ cs) = trim cs := by
  rw [trim, List.dropWhile_append_of_pos hblanks, ← trim]

theorem trimEnd_append_blanks (cs : List Char) : trimEnd (cs ++ blanks) = trimEnd cs := by
  have hreverse : ∀ c ∈ blanks.reverse, isBlank c = true :=
    fun c hc => hblanks c (List.mem_reverse.mp hc)
  rw [trimEnd, List.reverse_append, List.dropWhile_append_of_pos hreverse, ← trimEnd]

/-- Blanks behind are trimmed off. -/
theorem trim_append_blanks (cs : List Char) : trim (cs ++ blanks) = trim cs := by
  rw [trim, List.dropWhile_append, trim]
  split
  · next hblank => rw [List.isEmpty_iff.mp hblank, List.dropWhile_eq_nil_iff.mpr hblanks]
  · exact trimEnd_append_blanks hblanks _

/-- Blanks in front of a text are blanks in front of its first piece, which trims them off. -/
theorem map_trim_splitAtEach_of_blank (hseparator : isBlank separator = false) (cs : List Char) :
    (splitAtEach separator (blanks ++ cs)).map trim = (splitAtEach separator cs).map trim := by
  induction blanks with
  | nil => rfl
  | cons c blanks ih =>
      obtain ⟨hc, hrest⟩ := List.forall_mem_cons.mp hblanks
      have hne : c ≠ separator := by
        rintro rfl
        exact Bool.false_ne_true (hseparator.symm.trans hc)
      obtain ⟨piece, pieces, hsplit⟩ :=
        List.exists_cons_of_ne_nil (splitAtEach_ne_nil separator (blanks ++ cs))
      have htrim : trim (c :: piece) = trim piece :=
        trim_append_of_blank (List.forall_mem_singleton.mpr hc) piece
      rw [← ih hrest, List.cons_append, splitAtEach_cons_of_ne hne hsplit, hsplit, List.map_cons,
        List.map_cons, htrim]

end Blanks

/-- What is put behind a text without a separator in it goes to the last piece.  It is what is put
there that has none; the text may. -/
theorem exists_splitAtEach_append {rest : List Char} (h : separator ∉ rest) (cs : List Char) :
    ∃ pieces last, splitAtEach separator cs = pieces ++ [last] ∧
      splitAtEach separator (cs ++ rest) = pieces ++ [last ++ rest] := by
  induction cs with
  | nil => exact ⟨[], [], rfl, splitAtEach_of_notMem h⟩
  | cons c cs ih =>
      obtain ⟨pieces, last, hsplit, happend⟩ := ih
      by_cases hc : c = separator
      · refine ⟨[] :: pieces, last, ?_, ?_⟩
        · rw [splitAtEach, if_pos hc, hsplit, List.cons_append]
        · rw [List.cons_append, splitAtEach, if_pos hc, happend, List.cons_append]
      · cases pieces with
        | nil =>
            exact ⟨[], c :: last, splitAtEach_cons_of_ne hc hsplit,
              splitAtEach_cons_of_ne hc happend⟩
        | cons piece pieces =>
            exact ⟨(c :: piece) :: pieces, last, splitAtEach_cons_of_ne hc hsplit,
              splitAtEach_cons_of_ne hc happend⟩

/-- A text is its trimmed part between blanks. -/
theorem exists_eq_trim (cs : List Char) :
    ∃ before after, (∀ c ∈ before, isBlank c = true) ∧ (∀ c ∈ after, isBlank c = true) ∧
      cs = before ++ (trim cs ++ after) := by
  refine ⟨cs.takeWhile isBlank, ((cs.dropWhile isBlank).reverse.takeWhile isBlank).reverse,
    fun c hc => List.mem_takeWhile_imp hc,
    fun c hc => List.mem_takeWhile_imp (List.mem_reverse.mp hc), ?_⟩
  rw [trim, trimEnd, ← List.reverse_append, List.takeWhile_append_dropWhile, List.reverse_reverse,
    List.takeWhile_append_dropWhile]

/-- A trimmed text has nothing to trim. -/
theorem trim_trim (cs : List Char) : trim (trim cs) = trim cs := by
  obtain ⟨before, after, hbefore, hafter, hcs⟩ := exists_eq_trim cs
  have htrim := congrArg trim hcs
  rw [trim_append_of_blank hbefore, trim_append_blanks hafter] at htrim
  exact htrim.symm

/-- **Blanks around a text change none of its trimmed pieces.**  Those in front belong to the first
piece and those behind to the last, because a blank is no separator. -/
theorem map_trim_splitAtEach_trim (hseparator : isBlank separator = false) (cs : List Char) :
    (splitAtEach separator (trim cs)).map trim = (splitAtEach separator cs).map trim := by
  obtain ⟨before, after, hbefore, hafter, hcs⟩ := exists_eq_trim cs
  have hnotMem : separator ∉ after := fun h =>
    Bool.false_ne_true (hseparator.symm.trans (hafter _ h))
  obtain ⟨pieces, last, hsplit, happend⟩ := exists_splitAtEach_append hnotMem (trim cs)
  have hpieces : (splitAtEach separator cs).map trim =
      (splitAtEach separator (trim cs ++ after)).map trim := by
    nth_rewrite 1 [hcs]
    exact map_trim_splitAtEach_of_blank hbefore hseparator _
  rw [hpieces, happend, hsplit, List.map_append, List.map_append, List.map_singleton,
    List.map_singleton, trim_append_blanks hafter]

end CilRepair
