/-!
# Decimal digits

Numbers as digit sequences, the most significant digit first.

## Main definitions

* `Digit`: a decimal digit, and its character.
* `Nat.toDecimal`, `ofDecimal`: the digits of a number and the number of digits.
* `Decimal`: a number `digits * 10 ^ exponent`.
-/

namespace CilRepair

/-- A decimal digit. -/
abbrev Digit := Fin 10

/-- The digit of the number zero. -/
def Digit.zero : Digit := ⟨0, by decide⟩

/-- The character of a digit. -/
def Digit.toChar (d : Digit) : Char := Char.ofNat (48 + d.val)

/-- The digit of a character, for the ten ASCII digits only. -/
def Digit.ofChar? (c : Char) : Option Digit :=
  if h : 48 ≤ c.toNat ∧ c.toNat < 58 then some ⟨c.toNat - 48, by omega⟩ else none

/-- Digits in front of `rest`, taken off the low end of the number one by one. Any `fuel` above the
number is enough. -/
def decimalDigits : (fuel number : Nat) → (rest : List Digit) → List Digit
  | 0, _, rest => rest
  | fuel + 1, number, rest =>
    if h : number < 10 then ⟨number, h⟩ :: rest
    else decimalDigits fuel (number / 10) (⟨number % 10, by omega⟩ :: rest)

/-- **The digits of a number,** with no leading zero but the one of `0`. -/
def toDecimal (number : Nat) : List Digit := decimalDigits (number + 1) number []

/-- The number that digits spell. -/
def ofDecimal (digits : List Digit) : Nat := digits.foldl (fun n d => 10 * n + d.val) 0

/-- The characters of digits. -/
def digitChars (digits : List Digit) : List Char := digits.map Digit.toChar

/-- The decimal text of a number. -/
def natText (number : Nat) : String := String.ofList (digitChars (toDecimal number))

/-- The decimal text of an integer: a sign in front of the negative ones. -/
def intText (number : Int) : String :=
  if number < 0 then "-" ++ natText number.natAbs else natText number.natAbs

/-- A lowercase hexadecimal digit. -/
def hexChar (digit : Nat) : Char :=
  if digit < 10 then Char.ofNat (48 + digit) else Char.ofNat (87 + digit)

/-- The lowest `width` hexadecimal digits of a number. -/
def hexDigits : (width number : Nat) → List Char
  | 0, _ => []
  | width + 1, number => hexDigits width (number / 16) ++ [hexChar (number % 16)]

/-- The number of hexadecimal digits that a number needs, at least one. -/
def hexWidth (number : Nat) : Nat := number.log2 / 4 + 1

/-- Lowercase hexadecimal, padded with zeros to at least `width` digits. -/
def hexText (width number : Nat) : String :=
  String.ofList (hexDigits (max width (hexWidth number)) number)

/-- A number `digits * 10 ^ exponent`. -/
structure Decimal where
  digits : Nat
  exponent : Int
  deriving DecidableEq

namespace Decimal

/-- The power of ten of the leading digit. -/
def leading (d : Decimal) : Int :=
  d.exponent + ((toDecimal d.digits).length - 1 : Int)

/-- **Positional notation:** the digits in front of the point and those behind it. A number below
one has a single zero in front. -/
def positional (d : Decimal) : List Digit × List Digit :=
  let digits := toDecimal d.digits
  if 0 ≤ d.exponent then (digits ++ List.replicate d.exponent.toNat .zero, [])
  else
    let places := (-d.exponent).toNat
    if places < digits.length then digits.splitAt (digits.length - places)
    else ([.zero], List.replicate (places - digits.length) .zero ++ digits)

end Decimal

end CilRepair
