import CilRepair.Text.Utf8

/-!
# Bytes of a text

A text is read back from its bytes: character by character, without gaps.

* `firstChar?_encode` — the character at the start of its own encoding.
* `glyphs_utf8` — all characters of a text.

## Design notes

A reader of bytes finds characters one by one and skips the bytes that it has used.  So the
statement about a text is an induction over its characters, and each step is about the encoding of
one: its first byte tells how long it is, and its bits spell the code point.

The encoding is that of the library, and only the reading is defined here; the proof for one
character goes through the four lengths of an encoding.
-/

namespace CilRepair

/-- The bits of an encoding spell the code point.  One case for each of the four lengths, in each of
which the payload is taken apart and put together again. -/
theorem candidatePoint?_encode (c : Char) (rest : Bytes) :
    candidatePoint? (String.utf8EncodeChar c ++ rest) = some c.toNat := by
  have hlt : c.val.toNat < 1114112 := by
    have := c.valid
    rcases this with h | ⟨-, h⟩ <;> omega
  rw [String.utf8EncodeChar, Char.toNat]
  split
  · simp only [List.singleton_append, candidatePoint?, UInt8.toNat_ofNat']
    rw [if_pos (by omega)]
    exact congrArg some (by omega)
  · split
    · simp only [List.cons_append, List.nil_append, candidatePoint?, lowSix, UInt8.toNat_ofNat']
      rw [if_neg (by omega), if_pos (by omega)]
      exact congrArg some (by omega)
    · split
      · simp only [List.cons_append, List.nil_append, candidatePoint?, lowSix, UInt8.toNat_ofNat']
        rw [if_neg (by omega), if_neg (by omega), if_pos (by omega)]
        exact congrArg some (by omega)
      · simp only [List.cons_append, List.nil_append, candidatePoint?, lowSix, UInt8.toNat_ofNat']
        rw [if_neg (by omega), if_neg (by omega), if_neg (by omega)]
        exact congrArg some (by omega)

/-- **A character is found at the start of its encoding.** -/
theorem firstChar?_encode (c : Char) (rest : Bytes) :
    firstChar? (String.utf8EncodeChar c ++ rest) = some c := by
  rw [firstChar?, candidatePoint?_encode]
  dsimp only
  rw [Char.ofNat_toNat, if_pos (List.isPrefixOf_iff_prefix.mpr (List.prefix_append _ _))]

/-- Passed over bytes are gone. -/
theorem glyphsAfter_append (passed rest : Bytes) :
    glyphsAfter passed.length (passed ++ rest) = glyphsAfter 0 rest := by
  induction passed with
  | nil => rfl
  | cons b passed ih => exact ih

/-- The encoding of a character has a first byte. -/
theorem exists_encode_eq_cons (c : Char) :
    ∃ b tail, String.utf8EncodeChar c = b :: tail := by
  cases hencode : String.utf8EncodeChar c with
  | nil => exact absurd hencode (String.utf8EncodeChar_ne_nil)
  | cons b tail => exact ⟨b, tail, rfl⟩

/-- After its encoding a character is found, and reading goes on behind it. -/
theorem glyphs_encode (c : Char) (rest : Bytes) :
    glyphs (String.utf8EncodeChar c ++ rest) = some c :: glyphs rest := by
  obtain ⟨b, tail, hencode⟩ := exists_encode_eq_cons c
  have hfirst := firstChar?_encode c rest
  have hlength : (String.utf8EncodeChar c).length - 1 = tail.length := by
    rw [hencode, List.length_cons, Nat.add_sub_cancel]
  rw [hencode, List.cons_append] at hfirst
  rw [glyphs, hencode, List.cons_append, glyphsAfter, hfirst]
  dsimp only
  rw [hlength, glyphsAfter_append, glyphs]

/-- **The characters of a text are read back from its bytes.**  By induction on the characters. -/
theorem glyphs_utf8 (s : String) : glyphs (utf8 s) = s.toList.map some := by
  rw [utf8]
  induction s.toList with
  | nil => rfl
  | cons c cs ih => rw [List.flatMap_cons, glyphs_encode, ih, List.map_cons]

end CilRepair
