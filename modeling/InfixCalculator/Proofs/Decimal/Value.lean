import InfixCalculator.Decimal.Basic
import InfixCalculator.Proofs.Binary64.Interval
import Mathlib.Algebra.Order.Field.Power

/-!
# Values of decimals

A decimal denotes a rational number, and the pattern that it is rounded to depends on this number
alone. Trailing zeros change neither the number nor the exponent of the leading digit.

* `toRat`: the number that a decimal denotes.
* `exists_roundsTo`, `nearest_eq`, `nearest_congr`: the pattern of a decimal is the one that its
  number rounds to.
* `toRat_stripped`, `leadingExponent_stripped`: what stripping keeps.
-/

namespace InfixCalculator.Decimal

open Binary64 (IsNearest)

variable {d d' : Decimal}

/-- The number that a decimal denotes. -/
def toRat (d : Decimal) : ℚ := d.digits * 10 ^ d.exponent

theorem denominator_pos (d : Decimal) : 0 < d.denominator := Nat.pow_pos (by decide)

theorem numerator_div_denominator (d : Decimal) : (d.numerator : ℚ) / d.denominator = d.toRat := by
  obtain ⟨digits, exponent⟩ := d
  obtain ⟨n, rfl | rfl⟩ := exponent.eq_nat_or_neg
  · simp [numerator, denominator, toRat]
  · simp [numerator, denominator, toRat, div_eq_mul_inv]

theorem toRat_nonneg (d : Decimal) : 0 ≤ d.toRat :=
  mul_nonneg (Nat.cast_nonneg _) (zpow_nonneg (by norm_num) _)

/-- The pattern of a decimal is the one that its number rounds to, but infinity from there on. -/
theorem exists_roundsTo (d : Decimal) :
    ∃ p, Binary64.RoundsTo d.toRat p ∧ d.nearest = min p Binary64.infinity := by
  obtain ⟨p, hp, hnearest⟩ := Binary64.exists_isNearest d.numerator d.denominator_pos
  refine ⟨p, ?_, hnearest⟩
  rwa [Binary64.RoundsTo, ← numerator_div_denominator, div_mul_eq_mul_div]

/-- A number that rounds to a finite pattern has this pattern. -/
theorem nearest_eq {p : Nat} (hp : p < Binary64.infinity) (h : IsNearest (d.toRat * 2 ^ 1074) p) :
    d.nearest = p := by
  rw [← numerator_div_denominator, div_mul_eq_mul_div] at h
  exact Binary64.ofRatio_eq d.denominator_pos hp h

/-- Decimals that denote the same number have the same pattern. -/
theorem nearest_congr (h : d.toRat = d'.toRat) : d.nearest = d'.nearest := by
  rw [← numerator_div_denominator, ← numerator_div_denominator] at h
  exact Binary64.ofRatio_congr d.denominator_pos d'.denominator_pos h

/-- Zeros after the last digit are made up for by the exponent. -/
theorem toRat_mul_pow (digits zeros : Nat) (exponent : Int) :
    toRat ⟨digits * 10 ^ zeros, exponent - zeros⟩ = toRat ⟨digits, exponent⟩ := by
  simp only [toRat, Nat.cast_mul, Nat.cast_pow, Nat.cast_ofNat]
  rw [mul_assoc, ← zpow_natCast, ← zpow_add₀ (by norm_num), add_sub_cancel]

/-! ## Trailing zeros -/

/-- What a trailing zero does not change is not changed by stripping. -/
theorem stripped_congr {α : Type} (f : Decimal → α)
    (hf : ∀ digits exponent, digits ≠ 0 → f ⟨digits, exponent + 1⟩ = f ⟨digits * 10, exponent⟩)
    (d : Decimal) : f d.stripped = f d := by
  fun_induction stripped d with
  | case1 d h ih =>
    have hdigits : d.digits / 10 * 10 = d.digits := Nat.div_mul_cancel (Nat.dvd_of_mod_eq_zero h.2)
    have hne : d.digits / 10 ≠ 0 := by omega
    rw [ih, hf _ _ hne, hdigits]
  | case2 d h => rfl

theorem toRat_stripped (d : Decimal) : d.stripped.toRat = d.toRat := by
  refine stripped_congr toRat (fun digits exponent _ => ?_) d
  have h := toRat_mul_pow digits 1 (exponent + 1)
  rw [Nat.pow_one, Nat.cast_one, add_sub_cancel_right] at h
  exact h.symm

theorem leadingExponent_stripped (d : Decimal) : d.stripped.leadingExponent = d.leadingExponent := by
  refine stripped_congr leadingExponent (fun digits exponent hne => ?_) d
  have hlast := Nat.toDigits_of_base_le (b := 10) (n := digits * 10) (by decide) (by omega)
  rw [Nat.mul_div_cancel _ (by decide)] at hlast
  simp only [leadingExponent, digitChars, hlast, List.length_append, List.length_singleton]
  omega

end InfixCalculator.Decimal
