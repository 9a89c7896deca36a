import CilRepair.Image.Decode
import CilRepair.Proofs.DigitText
import CilRepair.Proofs.FloatReading

/-!
# Writing floating-point numbers

The decimal that is written for a finite number is read as a finite number again.  It may be a
neighbour of the one that was written, since reading rounds more than once; what counts here is that
even near the greatest number nothing is refused.

* `Decimal.value`, `BinaryFormat.value_shortest_le` — a shortest decimal exceeds its number by half
  a last place at most.
* `JsonNumber.isSome_ofPositional` — positional notation has a digit behind the point, so that the
  number is divided by a power of ten.
* `JsonNumber.isSome_ofScientific` — scientific notation, if the decimal leaves room for two
  roundings.
* `Json.isSome_binary64`, `Json.isSome_binary32` — all finite numbers of either width.

## Design notes

It is not claimed that the number which was written is the one that is read: a reader that rounds
more than once may come out at a neighbour.  The claim is that it does not refuse, and the proof is
divided by notation.  In positional notation there is a digit behind the point, the reader divides,
and a division is never refused.  In scientific notation it multiplies, and the product has to stay
finite.

A shortest decimal lies within half a last place of its number.  For all but three doubles that is
far enough from the greatest one; the three are evaluated.  Thirty-two bits are read as sixty-four
first and are far below the bound.
-/

namespace CilRepair

/-- The number that a decimal stands for. -/
def Decimal.value (d : Decimal) : ℚ := d.digits * 10 ^ d.exponent

/-! ### Shortest decimals -/

namespace BinaryFormat

theorem pow_toNat {a : ℚ} (ha : a ≠ 0) (k : ℤ) : a ^ k.toNat = a ^ k * a ^ (-k).toNat := by
  rw [← zpow_natCast, ← zpow_natCast, ← zpow_add₀ ha]
  congr 1
  omega

/-- Whichever of two neighbours is preferred, one that is taken is inside. -/
theorem inside_of_nearer {below above d : Decimal} {belowOk aboveOk preferAbove : Bool}
    (h : (if belowOk && !(aboveOk && preferAbove) then some below
      else if aboveOk then some above else none) = some d) :
    belowOk = true ∧ below = d ∨ aboveOk = true ∧ above = d := by
  split at h
  · next hok => exact .inl ⟨(Bool.and_eq_true_iff.mp hok).1, Option.some.inj h⟩
  · split at h
    · next hok => exact .inr ⟨hok, Option.some.inj h⟩
    · exact absurd h.symm (Option.some_ne_none d)

/-- The value of the unit of an interval, and of the step of a grid, in the common unit of both. -/
def gridScale (unit exponent : ℤ) : ℕ := Nat.pow 2 unit.toNat * Nat.pow 10 (-exponent).toNat

@[inherit_doc gridScale]
def gridStep (unit exponent : ℤ) : ℕ := Nat.pow 10 exponent.toNat * Nat.pow 2 (-unit).toNat

/-- What a grid yields lies on it, and the interval holds it.  The multiple below the value and the
one above are tried, and either is taken only if it is inside. -/
theorem gridHit?_inside {interval : RoundingInterval} {tie : Tie} {exponent : ℤ} {d : Decimal}
    (h : gridHit? interval tie exponent = some d) :
    d.exponent = exponent ∧ interval.holds (gridScale interval.unit exponent)
      (d.digits * gridStep interval.unit exponent) = true := by
  rcases inside_of_nearer h with ⟨hok, rfl⟩ | ⟨hok, rfl⟩
  · exact ⟨rfl, hok⟩
  · exact ⟨rfl, hok⟩

/-- What a grid yields is not above the interval. -/
theorem gridHit?_spec {interval : RoundingInterval} {tie : Tie} {exponent : ℤ} {d : Decimal}
    (h : gridHit? interval tie exponent = some d) :
    d.value ≤ interval.high * 2 ^ interval.unit := by
  obtain ⟨hexponent, hholds⟩ := gridHit?_inside h
  have hle : d.digits * gridStep interval.unit exponent ≤
      interval.high * gridScale interval.unit exponent := by
    rw [RoundingInterval.holds] at hholds
    split at hholds
    · exact (of_decide_eq_true hholds).2
    · exact (of_decide_eq_true hholds).2.le
  -- Both sides are counted in the common unit of the grid and the interval.
  have hcommon : (0 : ℚ) < 10 ^ (-exponent).toNat * 2 ^ (-interval.unit).toNat := by positivity
  have hcast : (d.digits : ℚ) * (10 ^ exponent.toNat * 2 ^ (-interval.unit).toNat) ≤
      interval.high * (2 ^ interval.unit.toNat * 10 ^ (-exponent).toNat) := by exact_mod_cast hle
  rw [pow_toNat (by norm_num) exponent, pow_toNat (by norm_num) interval.unit] at hcast
  rw [Decimal.value, hexponent]
  refine le_of_mul_le_mul_right ?_ hcommon
  calc _ = _ := by ring
    _ ≤ _ := hcast
    _ = _ := by ring

variable {f : BinaryFormat}

/-- **A shortest decimal exceeds its number by half a last place at most.**  It lies in the interval
of the decimals that round to the number, whichever grid it was found on. -/
theorem value_shortest_le (tie : Tie) (magnitude : ℕ) :
    (f.shortest tie magnitude).value ≤ f.value magnitude + 2 ^ (f.decode magnitude).2 / 2 := by
  have hnonneg : 0 ≤ f.value magnitude := by rw [value]; positivity
  have hplace : (0 : ℚ) < 2 ^ (f.decode magnitude).2 := by positivity
  have hinterval : ((f.interval magnitude).high : ℚ) * 2 ^ (f.interval magnitude).unit =
      f.value magnitude + 2 ^ (f.decode magnitude).2 / 2 := by
    have hhigh : (f.interval magnitude).high = 4 * (f.decode magnitude).1 + 2 := rfl
    have hunit : (f.interval magnitude).unit = (f.decode magnitude).2 - 2 := rfl
    rw [hhigh, hunit, zpow_sub₀ two_ne_zero, value]
    push_cast
    ring
  rw [shortest]
  cases hfound : (List.range 24).findSome? fun (i : ℕ) =>
      gridHit? (f.interval magnitude) tie (coarsestExponent (f.interval magnitude) - i) with
  | none =>
      rw [Option.getD_none, Decimal.value, Nat.cast_zero, zero_mul]
      linarith
  | some d =>
      obtain ⟨i, -, hhit⟩ := List.exists_of_findSome?_eq_some hfound
      rw [Option.getD_some, ← hinterval]
      exact gridHit?_spec hhit

end BinaryFormat

/-! ### Digits in sixty-four bits -/

/-- A number below a power of ten has that many digits, -/
theorem length_toDecimal_le {number length : ℕ} (h : number < 10 ^ (length + 1)) :
    (toDecimal number).length ≤ length + 1 := by
  induction length generalizing number with
  | zero => rw [toDecimal_of_lt (by simpa using h), List.length_singleton]
  | succ length ih =>
      rcases Nat.lt_or_ge number 10 with hlt | hge
      · rw [toDecimal_of_lt hlt, List.length_singleton]
        omega
      · have hquotient : number / 10 < 10 ^ (length + 1) := by
          rw [pow_succ] at h
          exact Nat.div_lt_of_lt_mul (by linarith)
        rw [toDecimal_of_ge hge, List.length_append, List.length_singleton]
        exact Nat.succ_le_succ (ih hquotient)

/-- and so many digits spell a number below it. -/
theorem ofDecimal_lt (digits : List Digit) : ofDecimal digits < 10 ^ digits.length := by
  induction digits using List.reverseRecOn with
  | nil => exact Nat.one_pos
  | append_singleton digits d ih =>
      rw [ofDecimal_append_singleton, List.length_append, List.length_singleton, pow_succ]
      omega

namespace JsonNumber

open BinaryFormat

/-- Nineteen digits fit.  The significand has 64 bits, so that the twentieth digit is the first that
may not. -/
theorem takeWhole_spec {digits : List Digit} {significand places : ℕ}
    (h : significand < 10 ^ places) (hplaces : places + digits.length ≤ 19) :
    (takeWhole digits significand).exponent = 0 ∧
      (takeWhole digits significand).significand < 10 ^ (places + digits.length) := by
  induction digits generalizing significand places with
  | nil => exact ⟨rfl, h⟩
  | cons d digits ih =>
      rw [List.length_cons] at hplaces ⊢
      have hnext : 10 * significand + d.val < 10 ^ (places + 1) := by
        rw [pow_succ]
        omega
      have hfits : 10 * significand + d.val < UInt64.size :=
        (hnext.trans_le (Nat.pow_le_pow_right (by decide) (by omega : places + 1 ≤ 19))).trans
          (by decide)
      rw [takeWhole, append?_eq_some_iff.mpr ⟨hfits, rfl⟩]
      have hplace : places + (digits.length + 1) = places + 1 + digits.length := by omega
      rw [hplace]
      exact ih hnext (by omega)

/-- Digits behind the point only make the exponent smaller. -/
theorem exponent_takeFraction_le (digits : List Digit) (s : Scaled) :
    (takeFraction digits s).exponent ≤ s.exponent := by
  induction digits generalizing s with
  | nil => exact le_rfl
  | cons d digits ih =>
      rw [takeFraction]
      split
      · exact (ih _).trans (by dsimp only; omega)
      · exact le_rfl

/-- **A digit behind the point is not lost** if there are at most sixteen in front of it, so that
the number is divided by a power of ten. -/
theorem isSome_of_fraction {negative : Bool} {whole : ℕ} {fraction : List Digit}
    (hwhole : whole < 10 ^ 16) (hfraction : fraction ≠ []) :
    (binary64? ⟨negative, whole, fraction, none⟩).isSome = true := by
  obtain ⟨d, digits, rfl⟩ := List.exists_cons_of_ne_nil hfraction
  have hlength : (toDecimal whole).length ≤ 16 := length_toDecimal_le hwhole
  obtain ⟨hexponent, hsignificand⟩ := @takeWhole_spec (toDecimal whole) 0 0 Nat.one_pos (by omega)
  have hfits : 10 * (takeWhole (toDecimal whole) 0).significand + d.val < UInt64.size := by
    have hle : 10 ^ (0 + (toDecimal whole).length) ≤ 10 ^ 16 :=
      Nat.pow_le_pow_right (by decide) (by omega)
    have hsize : UInt64.size = 2 ^ 64 := rfl
    omega
  have hneg : (scaled ⟨negative, whole, d :: digits, none⟩).exponent < 0 := by
    rw [scaled, takeFraction, append?_eq_some_iff.mpr ⟨hfits, rfl⟩]
    have hle := exponent_takeFraction_le digits
      ⟨10 * (takeWhole (toDecimal whole) 0).significand + d.val,
        (takeWhole (toDecimal whole) 0).exponent - 1⟩
    rw [hexponent] at hle ⊢
    rw [Option.getD_none]
    dsimp only at hle ⊢
    omega
  rw [binary64?, Option.isSome_map]
  exact isSome_scale_of_neg hneg

/-! ### Positional notation -/

/-- No more digits stand in front of the point than the leading one has places. -/
theorem length_positional_le {d : Decimal} {places : ℕ} (h : d.leading ≤ places) :
    d.positional.1.length ≤ places + 1 := by
  rw [Decimal.leading] at h
  rw [Decimal.positional]
  split
  · rw [List.length_append, List.length_replicate]
    omega
  · dsimp only
    split
    · rw [List.splitAt_eq, List.length_take]
      omega
    · rw [List.length_singleton]
      omega

/-- **A number in positional notation is read.** -/
theorem isSome_ofPositional {negative : Bool} {d : Decimal} (h : d.leading ≤ 15) :
    (ofPositional negative d).binary64?.isSome = true := by
  have hwhole : ofDecimal d.positional.1 < 10 ^ 16 :=
    (ofDecimal_lt _).trans_le (Nat.pow_le_pow_right (by decide) (length_positional_le h))
  refine isSome_of_fraction hwhole ?_
  split
  · exact List.cons_ne_nil _ _
  · next hfraction => exact fun hnil => hfraction (by rw [hnil]; rfl)

/-! ### Scientific notation -/

/-- Digits behind a significand make it no smaller than zeros would. -/
theorem le_foldl (digits : List Digit) (significand : ℕ) :
    significand * 10 ^ digits.length ≤
      digits.foldl (fun (n : ℕ) (d : Digit) => 10 * n + d.val) significand := by
  induction digits generalizing significand with
  | nil =>
      rw [List.length_nil, pow_zero, mul_one]
      exact le_rfl
  | cons d digits ih =>
      rw [List.length_cons, List.foldl_cons]
      refine le_trans ?_ (ih _)
      rw [pow_succ', ← mul_assoc, mul_comm significand]
      exact Nat.mul_le_mul_right _ (Nat.le_add_right _ _)

/-- **Dropping digits makes a number no greater.**  Either a digit is taken, and the value is the
same, or this and all later ones are left out, as if they were zeros. -/
theorem takeFraction_value_le (digits : List Digit) (s : Scaled) :
    ((takeFraction digits s).significand : ℚ) * 10 ^ (takeFraction digits s).exponent ≤
      (digits.foldl (fun (n : ℕ) (d : Digit) => 10 * n + d.val) s.significand : ℕ) *
        10 ^ (s.exponent - digits.length) := by
  induction digits generalizing s with
  | nil =>
      rw [List.length_nil, Nat.cast_zero, sub_zero]
      exact le_rfl
  | cons d digits ih =>
      rw [takeFraction]
      split
      · next hnext =>
          obtain ⟨-, rfl⟩ := append?_eq_some_iff.mp hnext
          refine (ih _).trans_eq ?_
          rw [List.foldl_cons, List.length_cons]
          congr 2
          push_cast
          ring
      · -- From the first digit that does not fit on all are dropped, as if they were zeros.
        have hle : ((s.significand * 10 ^ (d :: digits).length : ℕ) : ℚ) ≤
            ((d :: digits).foldl (fun (n : ℕ) (d : Digit) => 10 * n + d.val)
              s.significand : ℕ) := by
          exact_mod_cast le_foldl (d :: digits) s.significand
        refine le_trans (le_of_eq ?_) (mul_le_mul_of_nonneg_right hle (by positivity))
        rw [Nat.cast_mul, Nat.cast_pow, Nat.cast_ofNat, mul_assoc, ← zpow_natCast,
          ← zpow_add₀ (by norm_num)]
        congr 2
        ring

/-- The scaled significand of scientific notation is the decimal without the digits that were
dropped. -/
theorem scaled_ofScientific_le (negative : Bool) (d : Decimal) :
    ((ofScientific negative d).scaled.significand : ℚ) *
      10 ^ (ofScientific negative d).scaled.exponent ≤ d.value := by
  have hspelled := ofDecimal_toDecimal d.digits
  cases hdigits : toDecimal d.digits with
  | nil => exact absurd hdigits (toDecimal_ne_nil d.digits)
  | cons digit rest =>
      have hfits : 10 * 0 + digit.val < UInt64.size :=
        lt_trans (by omega) (by decide : 10 < UInt64.size)
      -- One digit stands in front of the point, and one digit always fits.
      have hwhole : takeWhole (toDecimal digit.val) 0 = ⟨digit.val, 0⟩ := by
        rw [toDecimal_of_lt digit.isLt, takeWhole, append?_eq_some_iff.mpr ⟨hfits, rfl⟩,
          Nat.mul_zero, Nat.zero_add]
        rfl
      have hfold : rest.foldl (fun (n : ℕ) (d : Digit) => 10 * n + d.val) digit.val = d.digits := by
        rw [← hspelled, hdigits, ofDecimal, List.foldl_cons, Nat.mul_zero, Nat.zero_add]
      have hleading : d.leading = d.exponent + rest.length := by
        rw [Decimal.leading, hdigits, List.length_cons]
        push_cast
        ring
      have hscaled : (ofScientific negative d).scaled =
          ⟨(takeFraction rest ⟨digit.val, 0⟩).significand,
            (takeFraction rest ⟨digit.val, 0⟩).exponent + d.leading⟩ := by
        rw [ofScientific, hdigits, scaled, hwhole]
        rfl
      have hle := takeFraction_value_le rest ⟨digit.val, 0⟩
      rw [hfold] at hle
      rw [hscaled, hleading, Decimal.value, zpow_add₀ (by norm_num), ← mul_assoc]
      refine (mul_le_mul_of_nonneg_right hle (by positivity)).trans_eq ?_
      rw [mul_assoc, ← zpow_add₀ (by norm_num)]
      congr 2
      ring

/-- **A decimal that leaves room is read** from scientific notation, even if the reader drops digits
that do not fit in sixty-four bits. -/
theorem isSome_ofScientific {negative : Bool} {d : Decimal} (h : LeavesRoom d.value) :
    (ofScientific negative d).binary64?.isSome = true := by
  rw [binary64?, Option.isSome_map]
  exact isSome_scale (h.mono (scaled_ofScientific_le negative d))

/-- **A number that leaves room is read** as it is written, in whichever notation. -/
theorem isSome_ofBinary {layout : FloatLayout} {f : BinaryFormat} {negative : Bool} {magnitude : ℕ}
    (hlayout : layout.greatest ≤ 15)
    (h : LeavesRoom (f.value magnitude + 2 ^ (f.decode magnitude).2 / 2)) :
    (ofBinary layout f negative magnitude).binary64?.isSome = true := by
  rw [ofBinary]
  split
  · exact isSome_of_fraction (by decide) (List.cons_ne_nil _ _)
  · dsimp only
    split
    · next hpositional => exact isSome_ofPositional (hpositional.2.trans hlayout)
    · exact isSome_ofScientific (h.mono (value_shortest_le .toEven magnitude))

end JsonNumber

/-! ### Finite numbers -/

namespace BinaryFormat

/-- At the last exponent the significand counts how far infinity is. -/
theorem significand_double_le {magnitude : ℕ} (h : magnitude + 4 ≤ double.infinity)
    (hexponent : (double.decode magnitude).2 = 971) : (double.decode magnitude).1 + 4 ≤ 2 ^ 53 := by
  have hhidden : double.hidden = 2 ^ 52 := by decide
  have hinfinity : double.infinity = 2047 * 2 ^ 52 := by decide
  have hleast : double.leastExponent = -1074 := by decide
  have hdiv := Nat.div_add_mod magnitude (2 ^ 52)
  rw [decode, hleast, hhidden] at hexponent ⊢
  split at hexponent
  · dsimp only at hexponent
    omega
  · next exponent heq =>
      dsimp only at hexponent ⊢
      omega

/-- Half a last place is counted with the significand. -/
theorem value_add_half (f : BinaryFormat) (magnitude : ℕ) :
    f.value magnitude + 2 ^ (f.decode magnitude).2 / 2 =
      ((f.decode magnitude).1 + 1 / 2) * 2 ^ (f.decode magnitude).2 := by
  rw [value]
  ring

/-- **All but three of the finite numbers leave room** for what a shortest decimal may exceed them
by. -/
theorem leavesRoom_double {magnitude : ℕ} (h : magnitude + 4 ≤ double.infinity) :
    LeavesRoom (double.value magnitude + 2 ^ (double.decode magnitude).2 / 2) := by
  have hfinite : magnitude < double.infinity := by omega
  obtain ⟨hsignificand, hexponent⟩ := decode_le (by decide) hfinite
  have hlast := significand_double_le h
  rw [LeavesRoom, value_add_half, greatest_double, mul_right_comm]
  rw [precision_double] at hsignificand
  rw [greatestExponent_double] at hexponent
  generalize (double.decode magnitude).1 = m at hsignificand hlast ⊢
  generalize (double.decode magnitude).2 = q at hexponent hlast ⊢
  rcases hexponent.lt_or_eq with hlt | rfl
  · have hplace : (2 : ℚ) ^ q * 2 ≤ 2 ^ (971 : ℤ) := by
      rw [← zpow_add_one₀ two_ne_zero]
      exact zpow_le_zpow_right₀ one_le_two (by omega)
    have hm : ((m : ℚ) + 1 / 2) * (1 + 1 / 2 ^ 53) ^ 2 ≤ (2 ^ 53 - 1) * 2 := by linarith
    calc _ ≤ ((2 : ℚ) ^ 53 - 1) * 2 * 2 ^ q := mul_le_mul_of_nonneg_right hm (by positivity)
      _ = (2 ^ 53 - 1) * (2 ^ q * 2) := by ring
      _ ≤ (2 ^ 53 - 1) * 2 ^ (971 : ℤ) := mul_le_mul_of_nonneg_left hplace (by norm_num)
  · have hcast : (m : ℚ) + 4 ≤ 2 ^ 53 := by exact_mod_cast hlast rfl
    have hm : ((m : ℚ) + 1 / 2) * (1 + 1 / 2 ^ 53) ^ 2 ≤ 2 ^ 53 - 1 := by linarith
    exact mul_le_mul_of_nonneg_right hm (by positivity)

/-- Thirty-two bits are far below: the greatest number has thirty-nine digits in front of its
point. -/
theorem leavesRoom_single {magnitude : ℕ} (h : magnitude < single.infinity) :
    LeavesRoom (single.value magnitude + 2 ^ (single.decode magnitude).2 / 2) := by
  have hprecision : single.precision = 24 := rfl
  have hgreatest : single.greatestExponent = 104 := by decide
  obtain ⟨hsignificand, hexponent⟩ := decode_le (by decide) h
  rw [hprecision] at hsignificand
  rw [hgreatest] at hexponent
  have hplace : (2 : ℚ) ^ (single.decode magnitude).2 ≤ 2 ^ (971 : ℤ) :=
    zpow_le_zpow_right₀ one_le_two (by omega)
  have hm : (((single.decode magnitude).1 : ℚ) + 1 / 2) * (1 + 1 / 2 ^ 53) ^ 2 ≤ 2 ^ 53 - 1 := by
    linarith
  rw [LeavesRoom, value_add_half, greatest_double, mul_right_comm]
  exact mul_le_mul hm hplace (by positivity) (by norm_num)

end BinaryFormat

namespace JsonNumber

open BinaryFormat

/-- The three that do not are read nevertheless, each as itself or as the number above.  They are
evaluated, with their digits. -/
theorem isSome_ofBinary_topmost (negative : Bool) {magnitude : ℕ}
    (h : magnitude ∈ [double.infinity - 3, double.infinity - 2, double.infinity - 1]) :
    (ofBinary layout64 double negative magnitude).binary64?.isSome = true := by
  have hscaled : ∀ negative : Bool,
      ∀ magnitude ∈ [double.infinity - 3, double.infinity - 2, double.infinity - 1],
        (ofBinary layout64 double negative magnitude).scaled.exponent = (292 : ℕ) ∧
          double.mul
              (double.roundQuotient
                (ofBinary layout64 double negative magnitude).scaled.significand 1)
              (powerOfTen 292) < double.infinity := by
    decide +kernel
  obtain ⟨hexponent, hfinite⟩ := hscaled negative magnitude h
  rw [binary64?, Option.isSome_map, hexponent, scale_of_le (by decide), if_pos hfinite]
  rfl

end JsonNumber

namespace Json

open BinaryFormat

/-- **A 64-bit number is read from what is written for it** exactly if it is finite.  An infinite
one is written as null, which is no number. -/
theorem isSome_binary64 {x : Binary64} :
    (binary64 x).binary64?.isSome = true ↔ x.magnitude < double.infinity := by
  rw [binary64]
  split
  · next hfinite =>
      refine iff_of_true ?_ hfinite
      rcases Nat.lt_or_ge double.infinity (x.magnitude + 4) with hlt | hle
      · refine JsonNumber.isSome_ofBinary_topmost x.negative ?_
        rw [List.mem_cons, List.mem_cons, List.mem_singleton]
        omega
      · exact JsonNumber.isSome_ofBinary (by decide) (leavesRoom_double hle)
  · next hinfinite => exact iff_of_false Bool.false_ne_true hinfinite

/-- **A 32-bit number is read from what is written for it** exactly if it is finite. -/
theorem isSome_binary32 {x : Binary32} :
    (binary32 x).binary32?.isSome = true ↔ x.magnitude < single.infinity := by
  rw [binary32]
  split
  · next hfinite =>
      refine iff_of_true (JsonNumber.isSome_binary32? ?_) hfinite
      exact JsonNumber.isSome_ofBinary (by decide) (leavesRoom_single hfinite)
  · next hinfinite => exact iff_of_false Bool.false_ne_true hinfinite

end Json

end CilRepair
