import CilRepair.Binary.Basic
import CilRepair.Decimal.Digits

/-!
# Shortest decimals

The decimal with the fewest digits that still rounds to a given binary number, and among those of
that length the one nearest to it.

## Main definitions

* `Tie`: which of two equally near decimals is taken.
* `BinaryFormat.shortest`: the decimal of a positive finite magnitude.
* `BinaryFormat.gridHit?`: the choice on the grid of one power of ten. The first grid with a hit,
  coming from the coarse side, gives the fewest digits.
-/

namespace CilRepair

/-- Which of two equally near decimals is taken: the one with the even last digit, or the greater
one. -/
inductive Tie
  | toEven | up
  deriving DecidableEq

/-- The reals that round to a number, in quarters of `2 ^ unit`: from `low` to `high` around
`value`, the ends included or not. -/
structure RoundingInterval where
  low : Nat
  value : Nat
  high : Nat
  unit : Int
  closed : Bool

namespace RoundingInterval

/-- A point lies in the interval. All numbers are counted in a common unit. -/
def holds (interval : RoundingInterval) (scale point : Nat) : Bool :=
  if interval.closed then interval.low * scale ≤ point ∧ point ≤ interval.high * scale
  else interval.low * scale < point ∧ point < interval.high * scale

end RoundingInterval

namespace BinaryFormat

variable (f : BinaryFormat)

/-- The interval around a positive finite magnitude. The neighbour below a power of two is half as
far away as the one above, except at the least exponent. -/
def interval (magnitude : Nat) : RoundingInterval :=
  let (m, q) := f.decode magnitude
  let below := if m = f.hidden ∧ f.leastExponent < q then 1 else 2
  { low := 4 * m - below, value := 4 * m, high := 4 * m + 2, unit := q - 2, closed := m % 2 = 0 }

/-- **The choice on one grid:** of the multiples of `10 ^ exponent` next to the value those inside
the interval, the nearer first. -/
def gridHit? (interval : RoundingInterval) (tie : Tie) (exponent : Int) : Option Decimal :=
  let scale := Nat.pow 2 interval.unit.toNat * Nat.pow 10 (-exponent).toNat
  let step := Nat.pow 10 exponent.toNat * Nat.pow 2 (-interval.unit).toNat
  let value := interval.value * scale
  let below := value / step
  let above := below + 1
  let belowOk := interval.holds scale (below * step)
  let aboveOk := interval.holds scale (above * step)
  let lowGap := value - below * step
  let highGap := above * step - value
  let preferAbove : Bool :=
    if lowGap = highGap then
      match tie with
      | .up => true
      | .toEven => decide (below % 2 = 1)
    else decide (highGap < lowGap)
  if belowOk && !(aboveOk && preferAbove) then some ⟨below, exponent⟩
  else if aboveOk then some ⟨above, exponent⟩
  else none

/-- A power of ten above every number of the interval, and at most two steps too high. -/
def coarsestExponent (interval : RoundingInterval) : Int :=
  ((interval.high.log2 : Int) + 1 + interval.unit) * 30103 / 100000 + 1

/-- **The shortest decimal of a positive finite magnitude.** Seventeen digits always suffice in
either format, so that the search ends within its twenty-four grids. -/
def shortest (tie : Tie) (magnitude : Nat) : Decimal :=
  let interval := f.interval magnitude
  let top := coarsestExponent interval
  ((List.range 24).findSome? fun (i : Nat) => gridHit? interval tie (top - i)).getD ⟨0, 0⟩

end BinaryFormat

/-- The text of a floating-point number in positional notation without a superfluous point, as
listings show it: `100000`, `0.5`, `-0`, `inf`. -/
def BinaryFormat.plainText (f : BinaryFormat) (negative : Bool) (magnitude : Nat) : String :=
  let sign := if negative then "-" else ""
  if magnitude = 0 then sign ++ "0"
  else if magnitude < f.infinity then
    let (whole, fraction) := (f.shortest .up magnitude).positional
    let point := if fraction.isEmpty then [] else '.' :: digitChars fraction
    sign ++ String.ofList (digitChars whole ++ point)
  else if magnitude = f.infinity then sign ++ "inf"
  else "NaN"

/-- The listing text of a 32-bit number. -/
def Binary32.plainText (x : Binary32) : String :=
  BinaryFormat.single.plainText x.negative x.magnitude

/-- The listing text of a 64-bit number. -/
def Binary64.plainText (x : Binary64) : String :=
  BinaryFormat.double.plainText x.negative x.magnitude

end CilRepair
