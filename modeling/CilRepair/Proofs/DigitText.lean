import CilRepair.Decimal.Digits
import CilRepair.Flags
import Mathlib

/-!
# Digits of numbers

Numbers are read back from their decimal and hexadecimal digits.

* `toDecimal_of_lt`, `toDecimal_of_ge` — the digits of a number, from the low end.
* `ofDecimal_toDecimal` — the digits spell the number.
* `exists_toDecimal` — the first digit is a zero in the number zero only.
* `hexNumber?_hexDigits`, `hexBits?_hexText` — hexadecimal digits spell the number.

## Design notes

Digits are produced from the low end with fuel that is greater than the number.  The fuel is removed
at once, by `decimalDigits_fuel`, and what remains are the two equations that the digits would have
by division; everything else about decimal text is proved by strong induction with these.

Hexadecimal digits have a width and spell a number modulo a power of sixteen.  That the width chosen
for a number is enough is a separate lemma, and the round trip is the two together.
-/

namespace CilRepair

/-! ### Decimal digits -/

theorem Digit.ofChar?_toChar (d : Digit) : Digit.ofChar? d.toChar = some d := by
  revert d
  decide

/-- Digits are put in front of others. -/
theorem decimalDigits_append (fuel number : Nat) (rest : List Digit) :
    decimalDigits fuel number rest = decimalDigits fuel number [] ++ rest := by
  induction fuel generalizing number rest with
  | zero => rfl
  | succ fuel ih =>
      rw [decimalDigits, decimalDigits]
      split
      · rfl
      · rw [ih, ih (number / 10) [_], List.append_assoc, List.singleton_append]

/-- More fuel than is enough makes no difference.  By strong induction on the fuel, for a digit
divides the number by ten and takes one from the fuel. -/
theorem decimalDigits_fuel {fuel number : Nat} (h : number < fuel) :
    decimalDigits fuel number [] = toDecimal number := by
  induction fuel using Nat.strongRecOn generalizing number with
  | ind fuel ih =>
      obtain ⟨fuel, rfl⟩ := Nat.exists_eq_add_one.mpr (Nat.zero_lt_of_lt h)
      rw [toDecimal, decimalDigits, decimalDigits]
      split
      · rfl
      · have hsmaller : number / 10 < fuel := by omega
        rw [decimalDigits_append, decimalDigits_append number,
          ih fuel (Nat.lt_add_one fuel) hsmaller]
        by_cases hfuel : number = fuel
        · rw [hfuel, ih fuel (Nat.lt_add_one fuel) (hfuel ▸ hsmaller)]
        · rw [ih number (by omega) (by omega)]

/-- A number with one digit, -/
theorem toDecimal_of_lt {number : Nat} (h : number < 10) : toDecimal number = [⟨number, h⟩] := by
  rw [toDecimal, decimalDigits, dif_pos h]

/-- and one with more. -/
theorem toDecimal_of_ge {number : Nat} (h : 10 ≤ number) :
    toDecimal number = toDecimal (number / 10) ++ [⟨number % 10, Nat.mod_lt _ (by decide)⟩] := by
  rw [toDecimal, decimalDigits, dif_neg (Nat.not_lt.mpr h), decimalDigits_append,
    decimalDigits_fuel (by omega)]

/-- A digit at the end counts once, and those before it ten times. -/
theorem ofDecimal_append_singleton (digits : List Digit) (d : Digit) :
    ofDecimal (digits ++ [d]) = 10 * ofDecimal digits + d.val := by
  rw [ofDecimal, List.foldl_append]
  rfl

/-- **The decimal digits of a number spell it.**  By strong induction on the number. -/
theorem ofDecimal_toDecimal (number : Nat) : ofDecimal (toDecimal number) = number := by
  induction number using Nat.strongRecOn with
  | ind number ih =>
      by_cases h : number < 10
      · rw [toDecimal_of_lt h]
        exact Nat.zero_add number
      · rw [toDecimal_of_ge (by omega), ofDecimal_append_singleton, ih (number / 10) (by omega)]
        exact Nat.div_add_mod number 10

/-- A number has a digit, and the first one is a zero in the number zero only. -/
theorem exists_toDecimal (number : Nat) :
    ∃ d digits, toDecimal number = d :: digits ∧ (d = .zero → number = 0 ∧ digits = []) := by
  induction number using Nat.strongRecOn with
  | ind number ih =>
      by_cases h : number < 10
      · refine ⟨_, _, toDecimal_of_lt h, fun hzero => ⟨congrArg Fin.val hzero, rfl⟩⟩
      · obtain ⟨d, digits, heq, hzero⟩ := ih (number / 10) (by omega)
        refine ⟨d, _, by rw [toDecimal_of_ge (by omega), heq, List.cons_append], fun hd => ?_⟩
        have := (hzero hd).1
        omega

/-- **A number is told by its text.** -/
theorem natText_injective : Function.Injective natText := by
  intro m n h
  have hchars : digitChars (toDecimal m) = digitChars (toDecimal n) := String.ofList_injective h
  have hchar : Function.Injective Digit.toChar := fun d e hde =>
    Option.some.inj ((Digit.ofChar?_toChar d).symm.trans (hde ▸ Digit.ofChar?_toChar e))
  have hdigits : toDecimal m = toDecimal n := hchar.list_map hchars
  rw [← ofDecimal_toDecimal m, hdigits, ofDecimal_toDecimal]

theorem toDecimal_ne_nil (number : Nat) : toDecimal number ≠ [] := by
  obtain ⟨d, digits, heq, -⟩ := exists_toDecimal number
  rw [heq]
  exact List.cons_ne_nil d digits

/-! ### Hexadecimal digits -/

theorem FlagTable.hexDigit?_hexChar {digit : Nat} (h : digit < 16) :
    FlagTable.hexDigit? (hexChar digit) = some digit := by
  revert digit
  decide

theorem length_hexDigits (width number : Nat) : (hexDigits width number).length = width := by
  induction width generalizing number with
  | zero => rfl
  | succ width ih => rw [hexDigits, List.length_append, ih, List.length_singleton]

/-- **The lowest hexadecimal digits of a number spell the rest of a division.**  By induction on the
width. -/
theorem FlagTable.hexNumber?_hexDigits (width number : Nat) :
    FlagTable.hexNumber? (hexDigits width number) = some (number % 16 ^ width) := by
  induction width generalizing number with
  | zero => simp [hexDigits, hexNumber?, Nat.mod_one]
  | succ width ih =>
      have hlow : FlagTable.hexDigit? (hexChar (number % 16)) = some (number % 16) :=
        hexDigit?_hexChar (Nat.mod_lt _ (by decide))
      have hhigh := ih (number / 16)
      rw [hexNumber?] at hhigh ⊢
      rw [hexDigits, List.foldlM_append, hhigh]
      have hsplit : number % 16 ^ (width + 1) =
          16 * (number / 16 % 16 ^ width) + number % 16 := by
        rw [Nat.pow_succ', Nat.mod_mul, Nat.add_comm]
      simp [List.foldlM, hlow, hsplit]

/-- The width that is chosen for a number is enough. -/
theorem lt_pow_hexWidth (number : Nat) : number < 16 ^ hexWidth number := by
  have hlog : number < 2 ^ (number.log2 + 1) := Nat.lt_log2_self
  have hwidth : number.log2 + 1 ≤ 4 * hexWidth number := by
    rw [hexWidth]
    omega
  calc number < 2 ^ (number.log2 + 1) := hlog
    _ ≤ 2 ^ (4 * hexWidth number) := Nat.pow_le_pow_right (by decide) hwidth
    _ = 16 ^ hexWidth number := Nat.pow_mul 2 4 _

theorem hexChar_ne_plus {digit : Nat} (h : digit < 16) : hexChar digit ≠ '+' := by
  revert digit
  decide

/-- Every character of a hexadecimal text is such a digit. -/
theorem exists_of_mem_hexDigits {width number : Nat} {c : Char} (h : c ∈ hexDigits width number) :
    ∃ digit < 16, c = hexChar digit := by
  induction width generalizing number with
  | zero => exact absurd h List.not_mem_nil
  | succ width ih =>
      rw [hexDigits, List.mem_append, List.mem_singleton] at h
      rcases h with h | h
      · exact ih h
      · exact ⟨number % 16, Nat.mod_lt _ (by decide), h⟩

/-- **A number is read back from its hexadecimal text.**  The text is padded with zeros, so at least
as wide as the number, and no sign is in front of it. -/
theorem FlagTable.hexBits?_hexText {limit number : Nat} (width : Nat) (h : number < limit) :
    FlagTable.hexBits? limit (hexText width number).toList = some number := by
  have hpow : number % 16 ^ max width (hexWidth number) = number := by
    refine Nat.mod_eq_of_lt (Nat.lt_of_lt_of_le (lt_pow_hexWidth number) ?_)
    exact Nat.pow_le_pow_right (by decide) (Nat.le_max_right _ _)
  have hnumber := hexNumber?_hexDigits (max width (hexWidth number)) number
  have hlength := length_hexDigits (max width (hexWidth number)) number
  -- A reader refuses a sign, and no digit is one.
  have hdigit : ∀ c ∈ hexDigits (max width (hexWidth number)) number, c ≠ '+' := by
    intro c hc
    obtain ⟨digit, hlt, rfl⟩ := exists_of_mem_hexDigits hc
    exact hexChar_ne_plus hlt
  rw [hpow] at hnumber
  rw [hexText, String.toList_ofList]
  cases hdigits : hexDigits (max width (hexWidth number)) number with
  | nil =>
      rw [hdigits, List.length_nil, hexWidth] at hlength
      omega
  | cons c digits =>
      rw [hdigits] at hnumber hdigit
      have hc := hdigit c List.mem_cons_self
      rw [hexBits?]
      · change (if (c :: digits).isEmpty then none
          else (hexNumber? (c :: digits)).filter (· < limit)) = some number
        rw [if_neg (by simp), hnumber, Option.filter_some, if_pos (decide_eq_true h)]
      · exact fun rest heq => hc (List.cons.inj heq).1

end CilRepair
