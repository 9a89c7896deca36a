import CilRepair.Json.Float
import CilRepair.Proofs.FloatRounding

/-!
# Reading floating-point numbers

A number is scaled by rounded powers of ten, so that it need not come out as the nearest one.  What
comes out is finite nevertheless, and a number well below the greatest one is never refused.

* `BinaryFormat.LeavesRoom` — two roundings leave a number finite.
* `JsonNumber.powerOfTen_spec` — the rounded powers of ten.
* `JsonNumber.scale_lt_infinity` — a scaled magnitude is finite, if there is one.
* `JsonNumber.isSome_scale_of_neg`, `JsonNumber.isSome_scale` — when there is one.
* `JsonNumber.binary64?_finite` — a 64-bit number that was read is finite.

## Design notes

The reader rounds the significand, then a power of ten, then their product or quotient.  Nothing is
claimed about which double comes out.  What the round trip of an image needs is that there is one
and that it is finite, and for both a bound on the relative error is enough.

`LeavesRoom` states how far below the greatest double a magnitude has to be for the first two of
these roundings to keep it there; the third one then keeps it finite.  All but the three greatest
doubles leave room when they are written, and those three are dealt with where writing is.
-/

namespace CilRepair

/-! ### Sixty-four bits -/

namespace BinaryFormat

/-- The format of a double: its precision, -/
theorem precision_double : double.precision = 53 := rfl

/-- its greatest exponent, -/
theorem greatestExponent_double : double.greatestExponent = 971 := by decide

/-- and its greatest finite value. -/
theorem greatest_double : double.greatest = (2 ^ 53 - 1) * 2 ^ (971 : ℤ) := by
  rw [greatest, precision_double, greatestExponent_double]

theorem greatest_double_cast : double.greatest = ((2 ^ 53 - 1) * 2 ^ 971 : ℕ) := by
  have hexponent : (971 : ℤ) = (971 : ℕ) := rfl
  have hcast : ((2 ^ 53 - 1 : ℕ) : ℚ) = 2 ^ 53 - 1 := by norm_num only
  rw [greatest_double, hexponent, zpow_natCast, Nat.cast_mul, hcast, Nat.cast_pow]
  rfl

/-- **Two roundings leave a number finite,** each of which may add one part in `2 ^ 53`. -/
def LeavesRoom (x : ℚ) : Prop := x * (1 + 1 / 2 ^ 53) ^ 2 ≤ double.greatest

theorem LeavesRoom.mono {x y : ℚ} (h : LeavesRoom y) (hxy : x ≤ y) : LeavesRoom x :=
  (mul_le_mul_of_nonneg_right hxy (by positivity)).trans h

theorem LeavesRoom.le_greatest {x : ℚ} (h : LeavesRoom x) (hx : 0 ≤ x) : x ≤ double.greatest :=
  (le_mul_of_one_le_right hx (by norm_num)).trans h

/-- Numbers from one on are rounded with a small relative error, since they are far from the
subnormal range. -/
theorem roundQuotient_double_spec {num : ℕ} (hpos : 0 < num) (h : num ≤ double.greatest) :
    double.roundQuotient num 1 < double.infinity ∧
      |double.value (double.roundQuotient num 1) - num| ≤ num / 2 ^ 53 := by
  have hone : ((num : ℚ) / (1 : ℕ)) = num := by rw [Nat.cast_one, div_one]
  have hleast : double.leastExponent = -1074 := by decide
  have hhidden : (double.hidden : ℚ) = 2 ^ (52 : ℤ) := by norm_num [hidden, double]
  have hnormal : double.hidden * 2 ^ double.leastExponent ≤ (num : ℚ) / (1 : ℕ) := by
    rw [hleast, hhidden, ← zpow_add₀ two_ne_zero, hone]
    exact (zpow_le_one_of_nonpos₀ one_le_two (by decide)).trans (by exact_mod_cast hpos)
  have hfinite : double.roundQuotient num 1 < double.infinity :=
    roundQuotient_lt_infinity (by decide) (by decide) Nat.one_pos (hone.trans_le h)
  have herror := abs_value_roundQuotient_sub_le (by decide) Nat.one_pos hnormal hfinite
  rw [hone] at herror
  exact ⟨hfinite, herror⟩

end BinaryFormat

/-- Sign and magnitude are kept apart in the bits. -/
theorem Binary64.magnitude_ofParts {negative : Bool} {magnitude : ℕ}
    (h : magnitude < BinaryFormat.double.signBit) :
    (ofParts negative magnitude).magnitude = magnitude := by
  have hsign : BinaryFormat.double.signBit = 2 ^ 63 := by decide +kernel
  rw [hsign] at h
  rw [Binary64.magnitude, ofParts, hsign, UInt64.toNat_ofNat']
  split <;> omega

namespace JsonNumber

open BinaryFormat

/-! ### Powers of ten -/

/-- **A power of ten** in the range is finite and is rounded with a small relative error. -/
theorem powerOfTen_spec {k : ℕ} (hk : k ≤ greatestPower) :
    powerOfTen k < double.infinity ∧ |double.value (powerOfTen k) - 10 ^ k| ≤ 10 ^ k / 2 ^ 53 := by
  have hlast : 10 ^ greatestPower ≤ (2 ^ 53 - 1) * 2 ^ 971 := by decide +kernel
  have hpower : 10 ^ k ≤ (2 ^ 53 - 1) * 2 ^ 971 :=
    (Nat.pow_le_pow_right (by decide) hk).trans hlast
  have hgreatest : ((10 ^ k : ℕ) : ℚ) ≤ double.greatest := by
    rw [greatest_double_cast]
    exact_mod_cast hpower
  have hspec := roundQuotient_double_spec (Nat.pow_pos (by decide)) hgreatest
  rw [Nat.cast_pow] at hspec
  exact hspec

/-- It is at least one, so that dividing by it does not make a number greater. -/
theorem one_le_powerOfTen {k : ℕ} (hpos : 0 < k) (hk : k ≤ greatestPower) :
    1 ≤ double.value (powerOfTen k) := by
  have hten : (10 : ℚ) ^ 1 ≤ 10 ^ k := pow_le_pow_right₀ (by norm_num) hpos
  have herror := (abs_le.mp (powerOfTen_spec hk).2).1
  have hhalf : (10 : ℚ) ^ k / 2 ^ 53 ≤ 10 ^ k / 2 := by gcongr; norm_num
  linarith

/-! ### Scaling -/

variable {magnitude result : ℕ} {exponent : ℤ}

/-- **A scaled magnitude is finite.**  By induction on the steps of the scaling: a division makes
the magnitude no greater, and a product that is not finite is refused. -/
theorem scale_lt_infinity (hfinite : magnitude < double.infinity)
    (h : scale magnitude exponent = some result) : result < double.infinity := by
  have hgreatest : greatestPower = 308 := rfl
  fun_induction scale magnitude exponent with
  | case1 exponent hsmall => exact Option.some.inj h ▸ hfinite
  | case2 magnitude exponent hsmall hzero ih =>
      exact ih (div_lt_infinity (by decide) (by decide) hfinite
        (one_le_powerOfTen (by decide) le_rfl)) h
  | case3 magnitude exponent hsmall hneg =>
      rw [← Option.some.inj h]
      exact div_lt_infinity (by decide) (by decide) hfinite
        (one_le_powerOfTen (by omega) (by omega))
  | case4 magnitude exponent hsmall hneg hle scaled hscaled => exact Option.some.inj h ▸ hscaled
  | case5 => exact absurd h.symm (Option.some_ne_none _)
  | case6 => exact Option.some.inj h ▸ hfinite
  | case7 => exact absurd h.symm (Option.some_ne_none _)

/-- **A number is divided by any power of ten.**  No division is refused. -/
theorem isSome_scale_of_neg (h : exponent < 0) : (scale magnitude exponent).isSome = true := by
  have hgreatest : greatestPower = 308 := rfl
  fun_induction scale magnitude exponent with
  | case1 => rfl
  | case2 magnitude exponent hsmall hzero ih => exact ih (by omega)
  | case3 => rfl
  | case4 => rfl
  | case5 magnitude exponent hsmall hneg => exact absurd h hneg
  | case6 => rfl
  | case7 magnitude exponent hsmall hneg => exact absurd h hneg

/-- A multiplication in the range takes one step. -/
theorem scale_of_le {k : ℕ} (hk : k ≤ greatestPower) :
    scale magnitude k =
      if double.mul magnitude (powerOfTen k) < double.infinity then
        some (double.mul magnitude (powerOfTen k))
      else none := by
  rw [scale, dif_neg (by omega), if_neg (by omega), if_pos (by exact_mod_cast hk)]
  rfl

/-- **A number that leaves room is multiplied by a power of ten.**  The two roundings are those of
the significand and of the power; a product no greater than the greatest number is rounded to a
finite one. -/
theorem isSome_scale_of_le {significand k : ℕ} (hk : k ≤ greatestPower)
    (h : LeavesRoom (significand * 10 ^ k)) :
    (scale (double.roundQuotient significand 1) k).isSome = true := by
  have hpower : (1 : ℚ) ≤ 10 ^ k := one_le_pow₀ (by norm_num)
  have hvalue : double.value (double.roundQuotient significand 1) ≤
      significand * (1 + 1 / 2 ^ 53) := by
    rcases Nat.eq_zero_or_pos significand with rfl | hpos
    · rw [roundQuotient, if_pos rfl, value_zero, Nat.cast_zero, zero_mul]
    · have hle : (significand : ℚ) ≤ double.greatest :=
        (le_mul_of_one_le_right (Nat.cast_nonneg _) hpower).trans (h.le_greatest (by positivity))
      have herror := (abs_le.mp (roundQuotient_double_spec hpos hle).2).2
      linarith
  obtain ⟨hlow, hhigh⟩ := abs_le.mp (powerOfTen_spec hk).2
  have hten : double.value (powerOfTen k) ≤ 10 ^ k * (1 + 1 / 2 ^ 53) := by linarith
  have hten' : 0 ≤ double.value (powerOfTen k) := by
    have hsmall : (10 : ℚ) ^ k / 2 ^ 53 ≤ 10 ^ k := div_le_self (by positivity) (by norm_num)
    linarith
  have hproduct : double.mul (double.roundQuotient significand 1) (powerOfTen k) <
      double.infinity := by
    refine mul_lt_infinity (by decide) (by decide) (le_trans ?_ h)
    calc _ ≤ (significand : ℚ) * (1 + 1 / 2 ^ 53) * (10 ^ k * (1 + 1 / 2 ^ 53)) :=
          mul_le_mul hvalue hten hten' (by positivity)
      _ = significand * 10 ^ k * (1 + 1 / 2 ^ 53) ^ 2 := by ring
  rw [scale_of_le hk, if_pos hproduct]
  rfl

/-- No finite number has a greater power of ten in it than those in the range. -/
theorem le_greatestPower {significand k : ℕ} (hpos : 0 < significand)
    (h : (significand * 10 ^ k : ℚ) ≤ double.greatest) : k ≤ greatestPower := by
  by_contra hlt
  have hgreatest : (2 ^ 53 - 1) * 2 ^ 971 < 10 ^ (greatestPower + 1) := by decide +kernel
  have hpower : 10 ^ (greatestPower + 1) ≤ 10 ^ k := Nat.pow_le_pow_right (by decide) (by omega)
  have hproduct : 10 ^ k ≤ significand * 10 ^ k := Nat.le_mul_of_pos_left _ hpos
  have hlarge : double.greatest < (significand * 10 ^ k : ℕ) := by
    rw [greatest_double_cast]
    exact_mod_cast hgreatest.trans_le (hpower.trans hproduct)
  push_cast at hlarge
  linarith

/-- Zero is scaled by anything.  Beyond the range of powers the code tests for zero before it gives
up. -/
theorem isSome_scale_zero : (scale 0 exponent).isSome = true := by
  rcases lt_or_ge exponent 0 with hneg | hnonneg
  · exact isSome_scale_of_neg hneg
  · obtain ⟨k, rfl⟩ := Int.eq_ofNat_of_zero_le hnonneg
    rcases Nat.lt_or_ge greatestPower k with hlt | hle
    · rw [scale, dif_neg (by omega), if_neg (by omega), if_neg (by omega), if_pos rfl]
      rfl
    · have hroom : LeavesRoom ((0 : ℕ) * 10 ^ k) := by
        rw [LeavesRoom, Nat.cast_zero, zero_mul, zero_mul, greatest_double_cast]
        exact Nat.cast_nonneg _
      exact isSome_scale_of_le hle hroom

/-- **Whatever leaves room is read,** divided by a power of ten or multiplied by one. -/
theorem isSome_scale {s : Scaled} (h : LeavesRoom (s.significand * 10 ^ s.exponent)) :
    (scale (double.roundQuotient s.significand 1) s.exponent).isSome = true := by
  rcases lt_or_ge s.exponent 0 with hneg | hnonneg
  · exact isSome_scale_of_neg hneg
  obtain ⟨k, hk⟩ := Int.eq_ofNat_of_zero_le hnonneg
  rw [hk, zpow_natCast] at h
  rw [hk]
  rcases Nat.eq_zero_or_pos s.significand with hzero | hpos
  · rw [hzero, roundQuotient, if_pos rfl]
    exact isSome_scale_zero
  · exact isSome_scale_of_le (le_greatestPower hpos (h.le_greatest (by positivity))) h

/-! ### Numbers -/

section Significand

variable {digits : List Digit}

/-- A digit is appended as long as the significand stays within sixty-four bits. -/
theorem append?_eq_some_iff {significand next : ℕ} {d : Digit} :
    append? significand d = some next ↔
      10 * significand + d.val < UInt64.size ∧ 10 * significand + d.val = next := by
  rw [append?, Option.ite_none_right_eq_some, Option.some.injEq]

/-- The digits in front of the point keep it there, -/
theorem takeWhole_lt {significand : ℕ} (h : significand < UInt64.size) :
    (takeWhole digits significand).significand < UInt64.size := by
  induction digits generalizing significand with
  | nil => exact h
  | cons d digits ih =>
      rw [takeWhole]
      split
      · next hnext =>
          obtain ⟨hlt, rfl⟩ := append?_eq_some_iff.mp hnext
          exact ih hlt
      · exact h

/-- and so do those behind it. -/
theorem takeFraction_lt {s : Scaled} (h : s.significand < UInt64.size) :
    (takeFraction digits s).significand < UInt64.size := by
  induction digits generalizing s with
  | nil => exact h
  | cons d digits ih =>
      rw [takeFraction]
      split
      · next hnext =>
          obtain ⟨hlt, rfl⟩ := append?_eq_some_iff.mp hnext
          exact ih hlt
      · exact h

theorem significand_lt (n : JsonNumber) : n.scaled.significand < UInt64.size :=
  takeFraction_lt (takeWhole_lt (by decide))

end Significand

/-- **A 64-bit number that was read is finite.**  It starts from a significand of 64 bits, which is
finite, and a step of the scaling that leaves the range is no result. -/
theorem binary64?_finite {n : JsonNumber} {x : Binary64} (h : n.binary64? = some x) :
    x.magnitude < double.infinity := by
  obtain ⟨result, hresult, rfl⟩ := Option.map_eq_some_iff.mp h
  have hsize : (n.scaled.significand : ℚ) ≤ double.greatest := by
    have hlt : n.scaled.significand ≤ (2 ^ 53 - 1) * 2 ^ 971 := by
      have hsize : UInt64.size ≤ (2 ^ 53 - 1) * 2 ^ 971 := by decide +kernel
      exact n.significand_lt.le.trans hsize
    rw [greatest_double_cast]
    exact_mod_cast hlt
  have hstart : double.roundQuotient n.scaled.significand 1 < double.infinity :=
    roundQuotient_lt_infinity (by decide) (by decide) Nat.one_pos (by simpa using hsize)
  have hfinite := scale_lt_infinity hstart hresult
  have hsign : double.infinity < double.signBit := by decide +kernel
  rw [Binary64.magnitude_ofParts (hfinite.trans hsign)]
  exact hfinite

/-- What reads as 64 bits reads as 32 bits, maybe as an infinite number. -/
theorem isSome_binary32? {n : JsonNumber} (h : n.binary64?.isSome = true) :
    n.binary32?.isSome = true := by
  rw [binary32?]
  split
  · next hint =>
      rw [isInt64] at hint
      split at hint
      · next heq => rw [heq]; rfl
      · exact absurd hint Bool.false_ne_true
  · rw [Option.isSome_map]
    exact h

end JsonNumber

end CilRepair
