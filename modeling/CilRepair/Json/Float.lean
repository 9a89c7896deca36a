import CilRepair.Decimal.Shortest
import CilRepair.Json.Basic

/-!
# Floating-point numbers in JSON

A number is read into a 64-bit significand and a power of ten, and then scaled by one rounded
multiplication or division; it need not come out as the nearest binary number. It is written with
the fewest digits that name it.

## Main definitions

* `JsonNumber.significand`: the digits that fit 64 bits, and the power of ten that is left.
* `JsonNumber.binary64?`, `binary32?`: the number that is read. There is none outside the 64-bit
  range; a number that only 32 bits cannot hold becomes infinite.
* `FloatLayout`: the exponents that are written positionally; `layout64`, `layout32`.
* `JsonNumber.ofBinary`: the way a number is written.
-/

namespace CilRepair

namespace JsonNumber

/-! ### Reading -/

/-- A significand in 64 bits with the power of ten that it is scaled by. -/
structure Scaled where
  significand : Nat
  exponent : Int

/-- A digit appended to a significand, if 64 bits hold it. -/
def append? (significand : Nat) (d : Digit) : Option Nat :=
  if 10 * significand + d.val < UInt64.size then some (10 * significand + d.val) else none

/-- Digits in front of the point. From the first one that does not fit they only count. -/
def takeWhole : List Digit → Nat → Scaled
  | [], significand => ⟨significand, 0⟩
  | d :: rest, significand =>
    match append? significand d with
    | some next => takeWhole rest next
    | none => ⟨significand, (d :: rest).length⟩

/-- Digits behind the point. From the first one that does not fit they are dropped. -/
def takeFraction : List Digit → Scaled → Scaled
  | [], s => s
  | d :: rest, s =>
    match append? s.significand d with
    | some next => takeFraction rest ⟨next, s.exponent - 1⟩
    | none => s

/-- **The significand and the power of ten of a number.** -/
def scaled (n : JsonNumber) : Scaled :=
  let s := takeFraction n.fraction (takeWhole (toDecimal n.whole) 0)
  ⟨s.significand, s.exponent + n.exponent.getD 0⟩

/-- The greatest power of ten in the range of the format. -/
def greatestPower : Nat := 308

/-- The magnitude of a power of ten. -/
def powerOfTen (exponent : Nat) : Nat :=
  BinaryFormat.double.roundQuotient (Nat.pow 10 exponent) 1

/-- **A magnitude scaled by a power of ten,** with one rounding for each factor. A large power gives
no number; a small one is divided out in pieces, unless nothing is left before. -/
def scale (magnitude : Nat) (exponent : Int) : Option Nat :=
  if _small : exponent < -greatestPower then
    if magnitude = 0 then some 0
    else scale (BinaryFormat.double.div magnitude (powerOfTen greatestPower))
      (exponent + greatestPower)
  else if exponent < 0 then
    some (BinaryFormat.double.div magnitude (powerOfTen exponent.natAbs))
  else if exponent ≤ greatestPower then
    let scaled := BinaryFormat.double.mul magnitude (powerOfTen exponent.natAbs)
    if scaled < BinaryFormat.double.infinity then some scaled else none
  else if magnitude = 0 then some 0
  else none
termination_by exponent.natAbs
decreasing_by
  simp only [greatestPower] at *
  omega

/-- The number reads as an integer of 64 bits, signed or not. -/
def isInt64 (n : JsonNumber) : Bool :=
  match n.int? with
  | some value => Int64.minValue.toInt ≤ value && value < UInt64.size
  | none => false

/-- **The 64-bit number that is read.** -/
def binary64? (n : JsonNumber) : Option Binary64 :=
  let s := n.scaled
  (scale (BinaryFormat.double.roundQuotient s.significand 1) s.exponent).map
    (Binary64.ofParts n.negative)

/-- **The 32-bit number that is read:** an integer in one rounding, any other number by way of 64
bits. -/
def binary32? (n : JsonNumber) : Option Binary32 :=
  if n.isInt64 then n.int?.map Binary32.ofInt else n.binary64?.map Binary64.narrow

/-! ### Writing -/

/-- The powers of ten of the leading digit that are written positionally. -/
structure FloatLayout where
  least : Int
  greatest : Int

/-- 64-bit numbers are positional from `0.00001` to below `1e+16`. -/
def layout64 : FloatLayout := ⟨-5, 15⟩

/-- 32-bit numbers are positional from `0.000001` to below `1e+13`. -/
def layout32 : FloatLayout := ⟨-6, 12⟩

/-- A decimal in positional notation: an integer keeps a zero behind the point. -/
def ofPositional (negative : Bool) (d : Decimal) : JsonNumber :=
  let (whole, fraction) := d.positional
  ⟨negative, ofDecimal whole, if fraction.isEmpty then [.zero] else fraction, none⟩

/-- A decimal with one digit in front of the point and an exponent. -/
def ofScientific (negative : Bool) (d : Decimal) : JsonNumber :=
  match toDecimal d.digits with
  | [] => ⟨negative, 0, [.zero], none⟩
  | digit :: rest => ⟨negative, digit.val, rest, some d.leading⟩

/-- **The way a finite number is written.** -/
def ofBinary (layout : FloatLayout) (f : BinaryFormat) (negative : Bool) (magnitude : Nat) :
    JsonNumber :=
  if magnitude = 0 then ⟨negative, 0, [.zero], none⟩
  else
    let d := f.shortest .toEven magnitude
    if layout.least ≤ d.leading ∧ d.leading ≤ layout.greatest then ofPositional negative d
    else ofScientific negative d

end JsonNumber

namespace Json

/-- A 64-bit number, or `null` if it is not finite. -/
def binary64 (x : Binary64) : Json :=
  if x.magnitude < BinaryFormat.double.infinity then
    number (.ofBinary JsonNumber.layout64 .double x.negative x.magnitude)
  else null

/-- A 32-bit number, or `null` if it is not finite. -/
def binary32 (x : Binary32) : Json :=
  if x.magnitude < BinaryFormat.single.infinity then
    number (.ofBinary JsonNumber.layout32 .single x.negative x.magnitude)
  else null

end Json

end CilRepair
