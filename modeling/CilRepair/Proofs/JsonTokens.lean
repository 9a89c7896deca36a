import CilRepair.Json.Printer
import CilRepair.Json.Reader
import CilRepair.Proofs.DigitText

/-!
# Tokens of JSON

Numbers and literals are read back from their text, whatever follows them.

* `EndsNumber` — what follows a number is no part of it.
* `readNumber?_chars` — a number is read back with all the detail that it is written with.
* `readLiteral?_literalChars` — a literal is read back, whether it spells a text or not.

## Design notes

A number is kept with all the detail of its text: its sign, the digits on both sides of the point
and its power of ten.  So it is read back exactly, and what a number is worth is nobody's business
here.

Each part of a number ends where the next character cannot belong to it.  The parts are read from
the front, and each lemma takes the rest of the input as a parameter with the condition that it
stops this part; `EndsNumber` stops all of them.

Characters of a literal go through one lemma, `readUnits?_escapeChar`, whichever of the ways to
write them was taken.
-/

namespace CilRepair

/-! ### Numbers -/

theorem Digit.toChar_ne_minus (d : Digit) : d.toChar ≠ '-' := by
  revert d
  decide

/-- The input does not begin with a digit. -/
def StopsDigits (input : Glyphs) : Prop :=
  ∀ c rest, input = some c :: rest → Digit.ofChar? c = none

/-- **The input does not go on with a number.** -/
def EndsNumber (input : Glyphs) : Prop :=
  ∀ c rest, input = some c :: rest →
    Digit.ofChar? c = none ∧ c ≠ '.' ∧ c ≠ 'e' ∧ c ≠ 'E'

theorem EndsNumber.stopsDigits {input : Glyphs} (h : EndsNumber input) : StopsDigits input :=
  fun c rest hinput => (h c rest hinput).1

theorem stopsDigits_cons {c : Char} {rest : Glyphs} (h : Digit.ofChar? c = none) :
    StopsDigits (some c :: rest) := by
  rintro c' rest' heq
  obtain rfl := Option.some.inj (List.cons.inj heq).1
  exact h

/-- Digits are read back, up to the first character that is none.  By induction on the digits. -/
theorem readDigits_digitChars (digits : List Digit) {rest : Glyphs} (h : StopsDigits rest) :
    readDigits ((digitChars digits).map some ++ rest) = (digits, rest) := by
  induction digits with
  | nil =>
      rw [digitChars, List.map_nil, List.map_nil, List.nil_append]
      match rest with
      | [] => rfl
      | none :: _ => rfl
      | some c :: rest => rw [readDigits, h c rest rfl]
  | cons d digits ih =>
      rw [digitChars] at ih ⊢
      rw [List.map_cons, List.map_cons, List.cons_append, readDigits, Digit.ofChar?_toChar]
      dsimp only
      rw [ih]

/-- A whole number is read back: it has a digit, and none that is too many in front. -/
theorem readWhole?_toDecimal (number : Nat) {rest : Glyphs} (h : StopsDigits rest) :
    readWhole? ((digitChars (toDecimal number)).map some ++ rest) = some (number, rest) := by
  obtain ⟨d, digits, heq, hzero⟩ := exists_toDecimal number
  have hspelled := ofDecimal_toDecimal number
  rw [readWhole?, readDigits_digitChars _ h]
  rw [heq] at hspelled ⊢
  dsimp only
  rw [if_neg fun hbad => hbad.2 (hzero hbad.1).2, hspelled]

namespace JsonNumber

variable (n : JsonNumber)

/-- The text behind the digits in front of the point. -/
def fractionChars : List Char :=
  if n.fraction.isEmpty then [] else '.' :: digitChars n.fraction

/-- The text behind the digits behind the point. -/
def powerChars : List Char :=
  match n.exponent with
  | some exponent => exponentChars exponent
  | none => []

/-- The text without the sign. -/
def unsignedChars : List Char :=
  digitChars (toDecimal n.whole) ++ (n.fractionChars ++ n.powerChars)

/-- The text of a number is its sign and the rest. -/
theorem chars_eq : n.chars = (if n.negative then ['-'] else []) ++ n.unsignedChars := by
  rw [chars, unsignedChars, List.append_assoc, List.append_assoc]
  rfl

/-- A power of ten begins with a letter, so that it stops digits, -/
theorem stopsDigits_powerChars {rest : Glyphs} (h : EndsNumber rest) :
    StopsDigits (n.powerChars.map some ++ rest) := by
  rw [powerChars]
  cases n.exponent with
  | none => exact h.stopsDigits
  | some exponent => exact stopsDigits_cons (by decide)

/-- and a fraction begins with a point. -/
theorem stopsDigits_fractionChars {rest : Glyphs} (h : EndsNumber rest) :
    StopsDigits (n.fractionChars.map some ++ (n.powerChars.map some ++ rest)) := by
  rw [fractionChars]
  cases n.fraction with
  | nil => exact n.stopsDigits_powerChars h
  | cons d digits => exact stopsDigits_cons (by decide)

/-- A power of ten is read back with its sign.  A number without a power has no letter for one, and
none is read where the number ends. -/
theorem readExponent?_powerChars {rest : Glyphs} (h : EndsNumber rest) :
    readExponent? (n.powerChars.map some ++ rest) = some (n.exponent, rest) := by
  rw [powerChars]
  cases n.exponent with
  | none =>
      -- Nothing is written, so what comes next must not look like the letter of a power.
      match rest with
      | [] => rfl
      | none :: _ => rfl
      | some c :: rest =>
          obtain ⟨-, -, he, hE⟩ := h c rest rfl
          rw [List.map_nil, List.nil_append, readExponent?, if_neg (not_or.mpr ⟨he, hE⟩)]
  | some exponent =>
      have hdigits := readDigits_digitChars (toDecimal exponent.natAbs) h.stopsDigits
      obtain ⟨d, digits, heq, -⟩ := exists_toDecimal exponent.natAbs
      have hspelled := ofDecimal_toDecimal exponent.natAbs
      rw [heq] at hdigits hspelled
      dsimp only
      rw [exponentChars, heq]
      generalize hsize : exponent.natAbs = size at hdigits hspelled
      -- A sign is written in front of the digits of a negative power only.
      by_cases hsign : exponent < 0
      · have habs : -(size : Int) = exponent := by omega
        simp [hsign, readExponent?, readSign, hdigits, hspelled, habs]
      · have habs : (size : Int) = exponent := by omega
        simp [hsign, readExponent?, readSign, hdigits, hspelled, habs]

/-- No point follows the digits behind a point. -/
theorem powerChars_ne_point {rest : Glyphs} (h : EndsNumber rest) (tail : Glyphs) :
    n.powerChars.map some ++ rest ≠ some '.' :: tail := by
  rw [powerChars]
  cases n.exponent with
  | none => exact fun heq => (h '.' tail heq).2.1 rfl
  | some exponent => exact fun heq => absurd (Option.some.inj (List.cons.inj heq).1) (by decide)

/-- The digits behind the point are read back, or none if there is no point. -/
theorem readFraction?_fractionChars {rest : Glyphs} (h : EndsNumber rest) :
    readFraction? (n.fractionChars.map some ++ (n.powerChars.map some ++ rest)) =
      some (n.fraction, n.powerChars.map some ++ rest) := by
  have hdigits := readDigits_digitChars n.fraction (n.stopsDigits_powerChars h)
  rw [fractionChars]
  cases hfraction : n.fraction with
  | nil =>
      rw [if_pos List.isEmpty_nil, List.map_nil, List.nil_append, readFraction?]
      exact n.powerChars_ne_point h
  | cons d digits =>
      rw [hfraction] at hdigits
      simp [readFraction?, hdigits]

/-- The text without the sign does not begin with one. -/
theorem exists_unsignedChars :
    ∃ d tail, n.unsignedChars = Digit.toChar d :: tail ∧ Digit.toChar d ≠ '-' := by
  obtain ⟨d, digits, heq, -⟩ := exists_toDecimal n.whole
  refine ⟨d, digitChars digits ++ (n.fractionChars ++ n.powerChars), ?_, ?_⟩
  · rw [unsignedChars, heq]
    rfl
  · exact d.toChar_ne_minus

/-- **A number is read back,** with its digits as they are.  Sign, whole part, fraction and power
are read one after the other. -/
theorem readNumber?_chars {rest : Glyphs} (h : EndsNumber rest) :
    readNumber? (n.chars.map some ++ rest) = some (n, rest) := by
  have hunsigned : n.unsignedChars.map some ++ rest =
      (digitChars (toDecimal n.whole)).map some ++
        (n.fractionChars.map some ++ (n.powerChars.map some ++ rest)) := by
    rw [unsignedChars, List.map_append, List.map_append, List.append_assoc, List.append_assoc]
  have hwhole := readWhole?_toDecimal n.whole (n.stopsDigits_fractionChars h)
  rw [← hunsigned] at hwhole
  have hfraction := n.readFraction?_fractionChars h
  have hexponent := n.readExponent?_powerChars h
  obtain ⟨negative, whole, fraction, exponent⟩ := n
  rw [chars_eq]
  cases negative with
  | true =>
      rw [if_pos rfl, List.singleton_append, List.map_cons, List.cons_append, readNumber?]
      simp [hwhole, hfraction, hexponent]
  | false =>
      rw [if_neg Bool.false_ne_true, List.nil_append, readNumber?]
      · simp [hwhole, hfraction, hexponent]
      · obtain ⟨d, tail, hfirst, hsign⟩ := exists_unsignedChars ⟨false, whole, fraction, exponent⟩
        rw [hfirst]
        exact fun input heq => hsign (Option.some.inj (List.cons.inj heq).1)

/-- The characters that a number may begin with. -/
def starts : List Char := ['-', '0', '1', '2', '3', '4', '5', '6', '7', '8', '9']

theorem toChar_mem_starts (d : Digit) : d.toChar ∈ starts := by
  revert d
  decide

/-- A number begins with its sign or a digit. -/
theorem exists_chars : ∃ c ∈ starts, ∃ tail, n.chars = c :: tail := by
  rw [chars_eq]
  cases n.negative with
  | true => exact ⟨'-', by decide, _, rfl⟩
  | false =>
      obtain ⟨d, tail, heq, -⟩ := n.exists_unsignedChars
      exact ⟨d.toChar, toChar_mem_starts d, tail, heq⟩

end JsonNumber

/-! ### Literals -/

theorem hexValue?_hexChar {digit : Nat} (h : digit < 16) :
    hexValue? (hexChar digit) = some digit := by
  revert digit
  decide

/-- A unit put in front of those that are read. -/
def consUnit (unit : LiteralUnit) (read : Option (List LiteralUnit × Glyphs)) :
    Option (List LiteralUnit × Glyphs) :=
  read.map fun (units, rest) => (unit :: units, rest)

/-- A control character is read back from its escape.  Four hexadecimal digits spell its number,
which is no surrogate. -/
theorem readUnits?_unicodeEscape {c : Char} (h : c.toNat < 32) (input : Glyphs) :
    readUnits? ((unicodeEscape c).map some ++ input) = consUnit (.char c) (readUnits? input) := by
  have hcode : codeUnit? (hexChar 0) (hexChar 0) (hexChar (c.toNat / 16 % 16))
      (hexChar (c.toNat % 16)) = some c.toNat := by
    rw [codeUnit?, hexValue?_hexChar (by decide), hexValue?_hexChar (Nat.mod_lt _ (by decide)),
      hexValue?_hexChar (Nat.mod_lt _ (by decide))]
    exact congrArg some (by omega)
  have hescape : unicodeEscape c =
      ['\\', 'u', hexChar 0, hexChar 0, hexChar (c.toNat / 16 % 16), hexChar (c.toNat % 16)] := by
    have hhigh : c.toNat / 16 / 16 = 0 := by omega
    rw [unicodeEscape, hexDigits, hexDigits, hexDigits, hexDigits, hexDigits, hhigh]
    rfl
  have hunit : unitOf c.toNat = .char c := by
    rw [unitOf, if_neg (by omega), Char.ofNat_toNat]
  rw [hescape]
  simp only [List.map_cons, List.map_nil, List.cons_append, List.nil_append]
  rw [readUnits?, hcode]
  dsimp only
  rw [hunit]
  rfl

/-- **A character is read back from its place in a literal.**  It stands for itself, behind a
backslash, or as four hexadecimal digits. -/
theorem readUnits?_escapeChar (c : Char) (input : Glyphs) :
    readUnits? ((escapeChar c).map some ++ input) = consUnit (.char c) (readUnits? input) := by
  rw [escapeChar]
  split
  · next h => rw [h]; rfl
  split
  · next h => rw [h]; rfl
  split
  · next h => rw [h]; rfl
  split
  · next h => rw [h]; rfl
  split
  · next h => rw [h]; rfl
  split
  · next h => rw [← Char.ofNat_toNat c, h]; rfl
  split
  · next h => rw [← Char.ofNat_toNat c, h]; rfl
  split
  · next h => exact readUnits?_unicodeEscape h input
  · next hquote hbackslash _ _ _ _ _ hcontrol =>
      rw [List.map_singleton, List.singleton_append, readUnits?]
      · rw [if_neg (not_or.mpr ⟨hbackslash, hcontrol⟩)]
        rfl
      · exact hquote
      · exact fun _ _ _ _ _ _ h => hbackslash h
      · exact fun _ _ _ h => hbackslash h

/-- A text is read back up to the quote behind it, character by character. -/
theorem readUnits?_text (cs : List Char) (rest : Glyphs) :
    readUnits? ((cs.flatMap escapeChar).map some ++ some '"' :: rest) =
      some (cs.map .char, rest) := by
  induction cs with
  | nil => rfl
  | cons c cs ih =>
      rw [List.flatMap_cons, List.map_append, List.append_assoc, readUnits?_escapeChar, ih]
      rfl

/-- Characters alone spell a text. -/
theorem unitsText?_chars (cs : List Char) : unitsText? (cs.map .char) = some cs := by
  induction cs with
  | nil => rfl
  | cons c cs ih => rw [List.map_cons, unitsText?, ih, Option.map_some]

/-- **A literal is read back,** whether it spells a text or not. -/
theorem readLiteral?_literalChars (text : Option String) (rest : Glyphs) :
    readLiteral? ((literalChars text).map some ++ some '"' :: rest) = some (text, rest) := by
  rw [readLiteral?]
  cases text with
  | none => rfl
  | some s =>
      rw [literalChars, readUnits?_text, Option.map_some]
      dsimp only
      rw [unitsText?_chars, Option.map_some, String.ofList_toList]

end CilRepair
