/-!
# Binary floating point

Binary interchange formats on their bit patterns, with every operation computed exactly in `Nat`
and rounded once, to the nearest value and a tie to the even significand.

## Main definitions

* `BinaryFormat`: precision and exponent width; `single` and `double` are the two in use.
* `BinaryFormat.decode`: the significand and the exponent of a magnitude.
* `BinaryFormat.roundQuotient`: the magnitude nearest to a quotient of naturals.
* `Binary32`, `Binary64`: bit patterns as values, so that equality is decidable and tells `-0.0`
  from `0.0`.
-/

namespace CilRepair

/-- The quotient rounded to the nearest number, a tie to the even one. -/
def roundHalfEven (num den : Nat) : Nat :=
  let low := num / den
  let twice := 2 * (num % den)
  if den < twice ∨ (twice = den ∧ low % 2 = 1) then low + 1 else low

/-- The parameters of a binary format: the bits of the significand, the hidden one included, and
those of the exponent. -/
structure BinaryFormat where
  precision : Nat
  exponentWidth : Nat

namespace BinaryFormat

/-- Thirty-two bits. -/
def single : BinaryFormat := ⟨24, 8⟩

/-- Sixty-four bits. -/
def double : BinaryFormat := ⟨53, 11⟩

variable (f : BinaryFormat)

/-- One more than the greatest fraction field. -/
def hidden : Nat := Nat.pow 2 (f.precision - 1)

/-- The exponent of the unit in the last place of the smallest magnitudes. -/
def leastExponent : Int := 3 - (Nat.pow 2 (f.exponentWidth - 1) : Nat) - f.precision

/-- The magnitude of infinity; the patterns above it are no numbers. -/
def infinity : Nat := (Nat.pow 2 f.exponentWidth - 1) * f.hidden

/-- The bit of the sign. -/
def signBit : Nat := Nat.pow 2 f.exponentWidth * f.hidden

/-- **The value of a finite magnitude:** `m` and `q` such that it is `m * 2 ^ q`. -/
def decode (magnitude : Nat) : Nat × Int :=
  let fraction := magnitude % f.hidden
  match magnitude / f.hidden with
  | 0 => (fraction, f.leastExponent)
  | exponent + 1 => (f.hidden + fraction, f.leastExponent + exponent)

/-- A value `m * 2 ^ q` as a quotient. -/
def quotient (value : Nat × Int) : Nat × Nat :=
  if 0 ≤ value.2 then (value.1 * Nat.pow 2 value.2.toNat, 1)
  else (value.1, Nat.pow 2 (-value.2).toNat)

/-- The quotient divided by a power of two, before rounding. -/
def scaled (num den : Nat) (q : Int) : Nat × Nat :=
  if 0 ≤ q then (num, den * Nat.pow 2 q.toNat) else (num * Nat.pow 2 (-q).toNat, den)

/-- The exponent of the last place at which a positive quotient is rounded: the one that leaves
`precision` bits in front of the point, but never below the least. -/
def roundingExponent (num den : Nat) : Int :=
  let guess : Int := num.log2 - den.log2 - f.precision
  let (n, d) := scaled num den guess
  let exact := if Nat.pow 2 f.precision ≤ n / d then guess + 1 else guess
  max exact f.leastExponent

/-- **The magnitude nearest to a quotient.** A carry out of the significand moves on into the
exponent field by itself, and a quotient that is too large becomes infinity. -/
def roundQuotient (num den : Nat) : Nat :=
  if num = 0 then 0
  else
    let q := f.roundingExponent num den
    let (n, d) := scaled num den q
    min ((q - f.leastExponent).toNat * f.hidden + roundHalfEven n d) f.infinity

/-- The product of two finite magnitudes. -/
def mul (a b : Nat) : Nat :=
  let (an, ad) := quotient (f.decode a)
  let (bn, bd) := quotient (f.decode b)
  f.roundQuotient (an * bn) (ad * bd)

/-- The quotient of two finite magnitudes, the second one positive. -/
def div (a b : Nat) : Nat :=
  let (an, ad) := quotient (f.decode a)
  let (bn, bd) := quotient (f.decode b)
  f.roundQuotient (an * bd) (ad * bn)

end BinaryFormat

/-- A 32-bit floating-point number, as its bits. -/
structure Binary32 where
  bits : UInt32
  deriving DecidableEq

/-- A 64-bit floating-point number, as its bits. -/
structure Binary64 where
  bits : UInt64
  deriving DecidableEq

namespace Binary32

/-- The sign bit is set. -/
def negative (x : Binary32) : Bool := decide (BinaryFormat.single.signBit ≤ x.bits.toNat)

/-- The bits without the sign. -/
def magnitude (x : Binary32) : Nat := x.bits.toNat % BinaryFormat.single.signBit

/-- The number with this sign and magnitude. -/
def ofParts (negative : Bool) (magnitude : Nat) : Binary32 :=
  ⟨UInt32.ofNat (if negative then BinaryFormat.single.signBit + magnitude else magnitude)⟩

/-- The integer nearest in this format. -/
def ofInt (n : Int) : Binary32 :=
  ofParts (n < 0) (BinaryFormat.single.roundQuotient n.natAbs 1)

end Binary32

namespace Binary64

/-- The sign bit is set. -/
def negative (x : Binary64) : Bool := decide (BinaryFormat.double.signBit ≤ x.bits.toNat)

/-- The bits without the sign. -/
def magnitude (x : Binary64) : Nat := x.bits.toNat % BinaryFormat.double.signBit

/-- The number with this sign and magnitude. -/
def ofParts (negative : Bool) (magnitude : Nat) : Binary64 :=
  ⟨UInt64.ofNat (if negative then BinaryFormat.double.signBit + magnitude else magnitude)⟩

/-- The integer nearest in this format. -/
def ofInt (n : Int) : Binary64 :=
  ofParts (n < 0) (BinaryFormat.double.roundQuotient n.natAbs 1)

/-- Rounded to 32 bits; a number that is too large becomes infinite. -/
def narrow (x : Binary64) : Binary32 :=
  if x.magnitude < BinaryFormat.double.infinity then
    let (num, den) := BinaryFormat.quotient (BinaryFormat.double.decode x.magnitude)
    .ofParts x.negative (BinaryFormat.single.roundQuotient num den)
  else .ofParts x.negative BinaryFormat.single.infinity

end Binary64

/-- The same number in 64 bits, where every finite 32-bit number has an exact place. -/
def Binary32.widen (x : Binary32) : Binary64 :=
  if x.magnitude < BinaryFormat.single.infinity then
    let (num, den) := BinaryFormat.quotient (BinaryFormat.single.decode x.magnitude)
    .ofParts x.negative (BinaryFormat.double.roundQuotient num den)
  else .ofParts x.negative BinaryFormat.double.infinity

end CilRepair
