import CilRepair.Binary.Basic
import Mathlib

/-!
# Rounding to a binary format

What a magnitude stands for as a rational number, and how far a rounded quotient is from the
quotient.  The last place is guessed from the lengths of the two integers and is then off by one at
most.

* `BinaryFormat.value` — the number that a magnitude stands for; `BinaryFormat.greatest`, the
  greatest finite one.
* `BinaryFormat.RoundsAt`, `BinaryFormat.exists_roundsAt` — the last place of a rounded quotient,
  and the nearest multiple of it.
* `BinaryFormat.value_place` — a carry out of the significand keeps the value.
* `BinaryFormat.abs_value_roundQuotient_sub_le` — the relative error, but for subnormals.
* `BinaryFormat.roundQuotient_lt_infinity` — no number up to the greatest becomes infinite;
  `mul_lt_infinity`, `div_lt_infinity` for products and quotients.

## Design notes

Magnitudes are integers and what they stand for is rational, so every bound is a statement of exact
arithmetic; no floating-point operation of the host is involved.

A rounded quotient is described by `RoundsAt` before anything is said of bits: some last place `q`
and the multiple of it that is nearest.  The cases that make rounding awkward, a guess that is one
too small, the least exponent and a carry into the next binade, are settled in the proof that such a
description exists and in `value_place`.  The bounds on the error and on the result are then a few
lines of inequalities each.

The format is a parameter with a positive precision and at least two bits of exponent; both formats
in use are cases.
-/

namespace CilRepair

/-- **Rounding to an integer is off by one half at most,** whichever way a tie goes.  The remainder
is compared with half of the denominator, and the error is the smaller of its two distances. -/
theorem abs_roundHalfEven_sub_le (num : ℕ) {den : ℕ} (h : 0 < den) :
    |(roundHalfEven num den : ℚ) - num / den| ≤ 1 / 2 := by
  have hden : (0 : ℚ) < den := by exact_mod_cast h
  have hmod : num % den < den := Nat.mod_lt num h
  have hdiv : (num : ℚ) = den * (num / den : ℕ) + (num % den : ℕ) := by
    exact_mod_cast (Nat.div_add_mod num den).symm
  have hquotient : (num : ℚ) / den = (num / den : ℕ) + ((num % den : ℕ) : ℚ) / den := by
    rw [div_eq_iff hden.ne', add_mul, div_mul_cancel₀ _ hden.ne', mul_comm, ← hdiv]
  have hpart : ∀ k : ℚ, (num % den : ℕ) ≤ k * den ↔ ((num % den : ℕ) : ℚ) / den ≤ k :=
    fun k => (div_le_iff₀ hden).symm
  have hnonneg : (0 : ℚ) ≤ ((num % den : ℕ) : ℚ) / den := by positivity
  rw [hquotient, roundHalfEven, abs_le]
  split
  · next hup =>
      have htwice : (den : ℚ) ≤ 2 * (num % den : ℕ) := by
        have : den ≤ 2 * (num % den) := by omega
        exact_mod_cast this
      have hhalf : (1 / 2 : ℚ) ≤ ((num % den : ℕ) : ℚ) / den := by
        rw [le_div_iff₀ hden]
        linarith
      have hone : ((num % den : ℕ) : ℚ) / den ≤ 1 := by
        rw [div_le_one hden]
        exact_mod_cast hmod.le
      push_cast
      constructor <;> linarith
  · next hdown =>
      have htwice : (2 * (num % den : ℕ) : ℚ) ≤ den := by
        have : 2 * (num % den) ≤ den := by omega
        exact_mod_cast this
      have hhalf : ((num % den : ℕ) : ℚ) / den ≤ 1 / 2 := by
        rw [div_le_iff₀ hden]
        linarith
      constructor <;> linarith

namespace BinaryFormat

variable (f : BinaryFormat)

/-- **The number that a magnitude stands for.** -/
def value (magnitude : ℕ) : ℚ := (f.decode magnitude).1 * 2 ^ (f.decode magnitude).2

/-- The exponent of the last place of the greatest finite magnitudes. -/
def greatestExponent : ℤ := f.leastExponent + (2 ^ f.exponentWidth - 3 : ℕ)

/-- **The greatest finite number.** -/
def greatest : ℚ := (2 ^ f.precision - 1) * 2 ^ f.greatestExponent

/-! ### Quotients -/

/-- A significand and an exponent as a quotient of integers, -/
theorem quotient_spec (m : ℕ) (q : ℤ) :
    0 < (quotient (m, q)).2 ∧
      ((quotient (m, q)).1 : ℚ) / (quotient (m, q)).2 = m * 2 ^ q := by
  rw [quotient]
  split
  · next h =>
      obtain ⟨k, rfl⟩ := Int.eq_ofNat_of_zero_le h
      refine ⟨Nat.one_pos, ?_⟩
      simp
  · next h =>
      obtain ⟨k, rfl⟩ : ∃ k : ℕ, q = -k := ⟨(-q).toNat, by dsimp only at h; omega⟩
      refine ⟨Nat.pos_of_ne_zero (by simp), ?_⟩
      simp [div_eq_mul_inv]

/-- and a quotient divided by a power of two. -/
theorem scaled_spec (num : ℕ) {den : ℕ} (hden : 0 < den) (q : ℤ) :
    0 < (scaled num den q).2 ∧
      ((scaled num den q).1 : ℚ) / (scaled num den q).2 = num / den / 2 ^ q := by
  rw [scaled]
  split
  · next h =>
      obtain ⟨k, rfl⟩ := Int.eq_ofNat_of_zero_le h
      refine ⟨Nat.mul_pos hden (Nat.pos_of_ne_zero (by simp)), ?_⟩
      simp [div_div]
  · next h =>
      obtain ⟨k, rfl⟩ : ∃ k : ℕ, q = -k := ⟨(-q).toNat, by omega⟩
      refine ⟨hden, ?_⟩
      simp [mul_div_right_comm]

/-- The length of an integer bounds it from both sides. -/
theorem log2_bounds {n : ℕ} (h : 0 < n) :
    (2 : ℚ) ^ (n.log2 : ℤ) ≤ n ∧ (n : ℚ) < 2 ^ (n.log2 + 1 : ℤ) := by
  have hle : 2 ^ n.log2 ≤ n := Nat.log2_self_le h.ne'
  have hlt : n < 2 ^ (n.log2 + 1) := Nat.lt_log2_self
  constructor
  · exact_mod_cast hle
  · exact_mod_cast hlt

variable {f}

theorem two_pow_precision (hp : 0 < f.precision) : 2 ^ f.precision = 2 * f.hidden := by
  obtain ⟨p, hp⟩ : ∃ p, f.precision = p + 1 := ⟨f.precision - 1, by omega⟩
  rw [hidden, hp, Nat.pow_eq, Nat.add_sub_cancel, pow_succ']

theorem two_pow_precision_cast (hp : 0 < f.precision) : (2 : ℚ) ^ f.precision = 2 * f.hidden := by
  exact_mod_cast two_pow_precision hp

theorem hidden_pos : 0 < f.hidden := Nat.pos_of_ne_zero (by simp [hidden])

/-! ### The last place -/

/-- The guess at the last place, made from the lengths of the two integers. -/
def guessedExponent (f : BinaryFormat) (num den : ℕ) : ℤ := num.log2 - den.log2 - f.precision

/-- The guess is not too high: the quotient has `precision` bits in front of it, -/
theorem hidden_mul_two_pow_guess_le (hp : 0 < f.precision) {num den : ℕ} (hnum : 0 < num)
    (hden : 0 < den) : (f.hidden : ℚ) * 2 ^ f.guessedExponent num den ≤ num / den := by
  have hdenPos : (0 : ℚ) < den := by exact_mod_cast hden
  rw [le_div_iff₀ hdenPos]
  calc (f.hidden : ℚ) * 2 ^ f.guessedExponent num den * den
      ≤ f.hidden * 2 ^ f.guessedExponent num den * 2 ^ (den.log2 + 1 : ℤ) := by
        have hhigh := (log2_bounds hden).2
        gcongr
    _ = 2 ^ (num.log2 : ℤ) := by
        have hexponent : (num.log2 : ℤ) = f.precision + f.guessedExponent num den + den.log2 := by
          rw [guessedExponent]
          ring
        rw [hexponent, zpow_add₀ two_ne_zero, zpow_add₀ two_ne_zero, zpow_add₀ two_ne_zero,
          zpow_natCast 2 f.precision, two_pow_precision_cast hp, zpow_one]
        ring
    _ ≤ num := (log2_bounds hnum).1

/-- and it is too low by one bit at most. -/
theorem lt_hidden_mul_two_pow_guess (hp : 0 < f.precision) {num den : ℕ} (hnum : 0 < num)
    (hden : 0 < den) :
    (num / den : ℚ) < 2 * (2 * f.hidden) * 2 ^ f.guessedExponent num den := by
  have hdenPos : (0 : ℚ) < den := by exact_mod_cast hden
  rw [div_lt_iff₀ hdenPos]
  calc (num : ℚ) < 2 ^ (num.log2 + 1 : ℤ) := (log2_bounds hnum).2
    _ = 2 * (2 * f.hidden) * 2 ^ f.guessedExponent num den * 2 ^ (den.log2 : ℤ) := by
        have hexponent : (num.log2 + 1 : ℤ) =
            1 + f.precision + f.guessedExponent num den + den.log2 := by
          rw [guessedExponent]
          ring
        rw [hexponent, zpow_add₀ two_ne_zero, zpow_add₀ two_ne_zero, zpow_add₀ two_ne_zero,
          zpow_natCast 2 f.precision, two_pow_precision_cast hp, zpow_one]
    _ ≤ 2 * (2 * f.hidden) * 2 ^ f.guessedExponent num den * den := by
        have hlow := (log2_bounds hden).1
        gcongr

/-- The last place before the lower limit is taken into account.  The guess is the last place or the
one below it, and the test that follows tells which. -/
theorem exists_exactExponent (hp : 0 < f.precision) {num den : ℕ} (hnum : 0 < num)
    (hden : 0 < den) :
    ∃ exact : ℤ, f.roundingExponent num den = max exact f.leastExponent ∧
      (f.hidden : ℚ) * 2 ^ exact ≤ num / den ∧ (num / den : ℚ) < 2 * f.hidden * 2 ^ exact := by
  obtain ⟨hscaledPos, hscaled⟩ := scaled_spec num hden (f.guessedExponent num den)
  have hguess : (0 : ℚ) < 2 ^ f.guessedExponent num den := by positivity
  have htest : Nat.pow 2 f.precision ≤ (scaled num den (f.guessedExponent num den)).1 /
        (scaled num den (f.guessedExponent num den)).2 ↔
      2 * f.hidden * 2 ^ f.guessedExponent num den ≤ (num / den : ℚ) := by
    rw [Nat.pow_eq, Nat.le_div_iff_mul_le hscaledPos, ← le_div_iff₀ hguess, ← hscaled,
      le_div_iff₀ (by exact_mod_cast hscaledPos), two_pow_precision hp]
    exact_mod_cast Iff.rfl
  have hlow := hidden_mul_two_pow_guess_le hp hnum hden
  have hhigh := lt_hidden_mul_two_pow_guess hp hnum hden
  refine ⟨if Nat.pow 2 f.precision ≤ (scaled num den (f.guessedExponent num den)).1 /
      (scaled num den (f.guessedExponent num den)).2 then f.guessedExponent num den + 1
    else f.guessedExponent num den, rfl, ?_⟩
  split
  · next h =>
      rw [zpow_add_one₀ two_ne_zero]
      have := htest.mp h
      constructor <;> linarith
  · next h => exact ⟨hlow, lt_of_not_ge fun hge => h (htest.mpr hge)⟩

/-- **A positive number rounded to `r` times `2 ^ q`.**  The last place leaves `precision` bits in
front of the point, or fewer if it is the least. -/
structure RoundsAt (f : BinaryFormat) (x : ℚ) (q : ℤ) (r : ℕ) : Prop where
  least_le : f.leastExponent ≤ q
  lt : x < 2 * f.hidden * 2 ^ q
  le : f.leastExponent < q → f.hidden * 2 ^ q ≤ x
  near : |r * 2 ^ q - x| ≤ 2 ^ q / 2

/-- **A rounded quotient has a last place,** and its bits are the exponent field above the
multiple. -/
theorem exists_roundsAt (hp : 0 < f.precision) {num den : ℕ} (hnum : 0 < num) (hden : 0 < den) :
    ∃ q r, f.RoundsAt (num / den) q r ∧
      f.roundQuotient num den =
        min ((q - f.leastExponent).toNat * f.hidden + r) f.infinity := by
  obtain ⟨exact, hexact, hlow, hhigh⟩ := exists_exactExponent hp hnum hden
  obtain ⟨q, hq⟩ : ∃ q, f.roundingExponent num den = q := ⟨_, rfl⟩
  rw [hq] at hexact
  obtain ⟨hscaledPos, hscaled⟩ := scaled_spec num hden q
  have hplace : (0 : ℚ) < 2 ^ q := by positivity
  have hround := abs_roundHalfEven_sub_le (scaled num den q).1 hscaledPos
  rw [hscaled] at hround
  refine ⟨q, roundHalfEven (scaled num den q).1 (scaled num den q).2, ⟨?_, ?_, ?_, ?_⟩, ?_⟩
  · exact hexact ▸ le_max_right _ _
  · have hle : exact ≤ q := hexact ▸ le_max_left _ _
    exact lt_of_lt_of_le hhigh (by gcongr; norm_num)
  · intro hlt
    obtain rfl : q = exact := by omega
    exact hlow
  · have hsplit : ∀ r : ℚ, r * 2 ^ q - num / den = (r - num / den / 2 ^ q) * 2 ^ q := fun r => by
      rw [sub_mul, div_mul_cancel₀ _ hplace.ne']
    rw [hsplit, abs_mul, abs_of_pos hplace]
    linarith [mul_le_mul_of_nonneg_right hround hplace.le]
  · rw [roundQuotient, if_neg hnum.ne', hq]

namespace RoundsAt

variable {x : ℚ} {q : ℤ} {r : ℕ}

/-- The multiple fits in the significand, or is the next power of two, -/
theorem le_two_hidden (h : f.RoundsAt x q r) : r ≤ 2 * f.hidden := by
  have hplace : (0 : ℚ) < 2 ^ q := by positivity
  have hlt : (r : ℚ) * 2 ^ q < (2 * f.hidden + 1) * 2 ^ q := by
    linarith [(abs_le.mp h.near).2, h.lt]
  have : r < 2 * f.hidden + 1 := by exact_mod_cast lt_of_mul_lt_mul_right hlt hplace.le
  omega

/-- and has its leading bit, unless the last place is the least. -/
theorem hidden_le (h : f.RoundsAt x q r) (hq : f.leastExponent < q) : f.hidden ≤ r := by
  have hplace : (0 : ℚ) < 2 ^ q := by positivity
  have hlt : (f.hidden : ℚ) * 2 ^ q < (r + 1) * 2 ^ q := by
    linarith [(abs_le.mp h.near).1, h.le hq]
  have : f.hidden < r + 1 := by exact_mod_cast lt_of_mul_lt_mul_right hlt hplace.le
  omega

end RoundsAt

/-! ### Values -/

/-- A carry out of the significand has moved on into the exponent field.  The bits are added and not
put together, so the carry needs no case of its own where they are made. -/
theorem value_place {q : ℤ} {r : ℕ} (hq : f.leastExponent ≤ q) (hr : r ≤ 2 * f.hidden)
    (hnormal : f.leastExponent < q → f.hidden ≤ r) :
    f.value ((q - f.leastExponent).toNat * f.hidden + r) = r * 2 ^ q := by
  obtain ⟨e, rfl⟩ : ∃ e : ℕ, q = f.leastExponent + e := ⟨(q - f.leastExponent).toNat, by omega⟩
  have hpos := f.hidden_pos
  have he : (f.leastExponent + e - f.leastExponent).toNat = e := by omega
  rw [he, value]
  rcases lt_or_ge r f.hidden with hlt | hge
  · -- Without the leading bit the number has the least exponent.
    obtain rfl : e = 0 := by
      by_contra hne
      have := hnormal (by omega)
      omega
    have hdecode : f.decode (0 * f.hidden + r) = (r, f.leastExponent) := by
      rw [Nat.zero_mul, Nat.zero_add, decode, Nat.div_eq_of_lt hlt, Nat.mod_eq_of_lt hlt]
    rw [hdecode]
    simp
  · obtain ⟨fraction, rfl⟩ := Nat.exists_eq_add_of_le hge
    rcases lt_or_eq_of_le (show fraction ≤ f.hidden by omega) with hfraction | hfraction
    · have hsum : e * f.hidden + (f.hidden + fraction) = fraction + f.hidden * (e + 1) := by ring
      have hdecode : f.decode (e * f.hidden + (f.hidden + fraction)) =
          (f.hidden + fraction, f.leastExponent + e) := by
        rw [hsum, decode, Nat.add_mul_div_left _ _ hpos, Nat.add_mul_mod_self_left,
          Nat.div_eq_of_lt hfraction, Nat.mod_eq_of_lt hfraction, Nat.zero_add]
      rw [hdecode]
    · -- The carry makes the exponent field one larger and leaves no fraction.
      have hsum : e * f.hidden + (f.hidden + fraction) = 0 + f.hidden * (e + 1 + 1) := by
        rw [hfraction]
        ring
      have hdecode : f.decode (e * f.hidden + (f.hidden + fraction)) =
          (f.hidden, f.leastExponent + (e + 1 : ℕ)) := by
        rw [hsum, decode, Nat.add_mul_div_left _ _ hpos, Nat.add_mul_mod_self_left,
          Nat.zero_div, Nat.zero_mod, Nat.zero_add]
        rfl
      rw [hdecode, hfraction]
      push_cast
      rw [← add_assoc, zpow_add_one₀ two_ne_zero]
      ring

theorem value_zero : f.value 0 = 0 := by
  rw [value, decode, Nat.zero_div, Nat.zero_mod]
  simp

/-- The significand and the last place of a finite magnitude.  The exponent field of infinity is the
largest, and magnitudes are in the order of their fields. -/
theorem decode_le (hp : 0 < f.precision) {magnitude : ℕ} (h : magnitude < f.infinity) :
    ((f.decode magnitude).1 : ℚ) ≤ 2 ^ f.precision - 1 ∧
      (f.decode magnitude).2 ≤ f.greatestExponent := by
  have hmod : magnitude % f.hidden < f.hidden := Nat.mod_lt _ hidden_pos
  have hdiv : magnitude / f.hidden < 2 ^ f.exponentWidth - 1 := by
    rw [Nat.div_lt_iff_lt_mul hidden_pos]
    exact h
  have hsignificand : (f.decode magnitude).1 + 1 ≤ 2 ^ f.precision := by
    rw [two_pow_precision hp, decode]
    split
    · dsimp only
      omega
    · dsimp only
      omega
  refine ⟨le_sub_iff_add_le.mpr (by exact_mod_cast hsignificand), ?_⟩
  rw [decode, greatestExponent]
  split
  · dsimp only
    omega
  · next exponent heq =>
      dsimp only
      omega

/-- No finite magnitude stands for more than the greatest number. -/
theorem value_le_greatest (hp : 0 < f.precision) {magnitude : ℕ} (h : magnitude < f.infinity) :
    f.value magnitude ≤ f.greatest := by
  obtain ⟨hsignificand, hexponent⟩ := decode_le hp h
  have hnonneg : (0 : ℚ) ≤ (f.decode magnitude).1 := Nat.cast_nonneg _
  exact mul_le_mul hsignificand (zpow_le_zpow_right₀ one_le_two hexponent) (by positivity)
    (hnonneg.trans hsignificand)

/-! ### Rounding -/

/-- **A quotient that is no subnormal is rounded with a small relative error,** if the result is
finite.  Half a last place is at most one part in `2 ^ precision` of a number that has all its
bits. -/
theorem abs_value_roundQuotient_sub_le (hp : 0 < f.precision) {num den : ℕ} (hden : 0 < den)
    (hnormal : f.hidden * 2 ^ f.leastExponent ≤ (num / den : ℚ))
    (hfinite : f.roundQuotient num den < f.infinity) :
    |f.value (f.roundQuotient num den) - num / den| ≤ num / den / 2 ^ f.precision := by
  have hhidden : (0 : ℚ) < f.hidden := by exact_mod_cast f.hidden_pos
  have hnum : 0 < num := by
    rw [Nat.pos_iff_ne_zero]
    rintro rfl
    have : (0 : ℚ) < f.hidden * 2 ^ f.leastExponent := by positivity
    simp only [Nat.cast_zero, zero_div] at hnormal
    linarith
  obtain ⟨q, r, hround, heq⟩ := exists_roundsAt hp hnum hden
  rw [heq, min_eq_left (by omega)]
  rw [value_place hround.least_le hround.le_two_hidden hround.hidden_le]
  have hplace : f.hidden * 2 ^ q ≤ (num / den : ℚ) := by
    rcases hround.least_le.lt_or_eq with hlt | rfl
    · exact hround.le hlt
    · exact hnormal
  have hpower := two_pow_precision_cast hp
  refine hround.near.trans ?_
  rw [hpower, le_div_iff₀ (by positivity)]
  linarith

/-- Infinity stands two exponents behind the last one, counted from the least. -/
theorem exists_limit (hw : 2 ≤ f.exponentWidth) :
    ∃ limit : ℕ, f.infinity = (limit + 2) * f.hidden ∧
      f.greatestExponent = f.leastExponent + limit := by
  have hwidth : 2 ^ 2 ≤ 2 ^ f.exponentWidth := Nat.pow_le_pow_right two_pos hw
  obtain ⟨limit, hlimit⟩ : ∃ limit, 2 ^ f.exponentWidth = limit + 3 :=
    ⟨2 ^ f.exponentWidth - 3, by omega⟩
  refine ⟨limit, ?_, ?_⟩
  · rw [infinity, Nat.pow_eq, hlimit]
    rfl
  · rw [greatestExponent, hlimit]
    rfl

/-- **What is not above the greatest number stays below infinity.**  At the last exponent the
nearest multiple is the greatest significand at most. -/
theorem RoundsAt.lt_infinity (hp : 0 < f.precision) (hw : 2 ≤ f.exponentWidth) {x : ℚ} {q : ℤ}
    {r : ℕ} (hround : f.RoundsAt x q r) (h : x ≤ f.greatest) :
    (q - f.leastExponent).toNat * f.hidden + r < f.infinity := by
  obtain ⟨limit, hinfinity, hlast⟩ := f.exists_limit hw
  have hpower := two_pow_precision_cast hp
  rw [greatest, hpower] at h
  by_contra hge
  obtain ⟨e, rfl⟩ : ∃ e : ℕ, q = f.leastExponent + e :=
    ⟨(q - f.leastExponent).toNat, by have := hround.least_le; omega⟩
  have he : (f.leastExponent + e - f.leastExponent).toNat = e := by omega
  rw [he, hinfinity, not_lt] at hge
  have hhidden : (0 : ℚ) < f.hidden := by exact_mod_cast f.hidden_pos
  have hr := hround.le_two_hidden
  rcases lt_trichotomy e limit with hlt | rfl | hgt
  · have hstep : (e + 1) * f.hidden ≤ limit * f.hidden := Nat.mul_le_mul_right _ hlt
    have hpos := f.hidden_pos
    linarith
  · -- At the last exponent only a carry reaches infinity, and it starts above the greatest number.
    have hcarry : (2 * f.hidden : ℚ) ≤ r := by
      have : 2 * f.hidden ≤ r := by linarith
      exact_mod_cast this
    have hnear := (abs_le.mp hround.near).2
    rw [← hlast] at hnear
    have hplace : (0 : ℚ) < 2 ^ f.greatestExponent := by positivity
    have := mul_le_mul_of_nonneg_right hcarry hplace.le
    linarith
  · have hle := hround.le (by omega)
    have hstep : (2 : ℚ) ^ f.greatestExponent * 2 ≤ 2 ^ (f.leastExponent + e) := by
      rw [← zpow_add_one₀ two_ne_zero, hlast]
      exact zpow_le_zpow_right₀ one_le_two (by omega)
    have hplace : (0 : ℚ) < 2 ^ f.greatestExponent := by positivity
    have := mul_le_mul_of_nonneg_left hstep hhidden.le
    linarith

/-- **No number up to the greatest becomes infinite.** -/
theorem roundQuotient_lt_infinity (hp : 0 < f.precision) (hw : 2 ≤ f.exponentWidth) {num den : ℕ}
    (hden : 0 < den) (h : (num / den : ℚ) ≤ f.greatest) :
    f.roundQuotient num den < f.infinity := by
  rcases Nat.eq_zero_or_pos num with rfl | hnum
  · obtain ⟨limit, hinfinity, -⟩ := f.exists_limit hw
    rw [roundQuotient, if_pos rfl, hinfinity]
    exact Nat.mul_pos (by omega) hidden_pos
  · obtain ⟨q, r, hround, heq⟩ := exists_roundsAt hp hnum hden
    rw [heq, min_lt_iff]
    exact .inl (hround.lt_infinity hp hw h)

section Operations

variable {a b : ℕ}

theorem quotient_decode (a : ℕ) :
    0 < (quotient (f.decode a)).2 ∧
      ((quotient (f.decode a)).1 : ℚ) / (quotient (f.decode a)).2 = f.value a :=
  quotient_spec _ _

/-- Products are exact before they are rounded, -/
theorem mul_eq : f.mul a b = f.roundQuotient
    ((quotient (f.decode a)).1 * (quotient (f.decode b)).1)
    ((quotient (f.decode a)).2 * (quotient (f.decode b)).2) := rfl

/-- and so are quotients. -/
theorem div_eq : f.div a b = f.roundQuotient
    ((quotient (f.decode a)).1 * (quotient (f.decode b)).2)
    ((quotient (f.decode a)).2 * (quotient (f.decode b)).1) := rfl

/-- **A product is finite** if the exact one is not above the greatest number. -/
theorem mul_lt_infinity (hp : 0 < f.precision) (hw : 2 ≤ f.exponentWidth)
    (h : f.value a * f.value b ≤ f.greatest) : f.mul a b < f.infinity := by
  obtain ⟨haPos, ha⟩ := f.quotient_decode a
  obtain ⟨hbPos, hb⟩ := f.quotient_decode b
  rw [mul_eq]
  refine roundQuotient_lt_infinity hp hw (Nat.mul_pos haPos hbPos) ?_
  rw [Nat.cast_mul, Nat.cast_mul, mul_div_mul_comm, ha, hb]
  exact h

/-- **A finite number divided by one or more is finite.**  The exact quotient is no greater than the
number. -/
theorem div_lt_infinity (hp : 0 < f.precision) (hw : 2 ≤ f.exponentWidth) (ha : a < f.infinity)
    (hb : 1 ≤ f.value b) : f.div a b < f.infinity := by
  obtain ⟨haPos, haValue⟩ := f.quotient_decode a
  obtain ⟨hbPos, hbValue⟩ := f.quotient_decode b
  have hnum : 0 < (quotient (f.decode b)).1 := by
    rw [Nat.pos_iff_ne_zero]
    intro hzero
    rw [hzero, Nat.cast_zero, zero_div] at hbValue
    linarith
  have hnonneg : 0 ≤ f.value a := haValue ▸ by positivity
  rw [div_eq]
  refine roundQuotient_lt_infinity hp hw (Nat.mul_pos haPos hnum) ?_
  rw [Nat.cast_mul, Nat.cast_mul, mul_div_mul_comm, haValue, ← inv_div, hbValue, ← div_eq_mul_inv]
  exact (div_le_self hnonneg hb).trans (value_le_greatest hp ha)

end Operations

end BinaryFormat

end CilRepair
