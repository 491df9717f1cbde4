import InfixCalculator.Proofs.Decimal.Value

/-!
# Lengths and decades of decimals

The number of digits of a decimal bounds the digits, and together with the exponent it tells the
decade in which the number lies: between the power of ten of the leading digit and the next one. A
stripped decimal does not end in a zero and has no more digits than before.

* `digits_lt_pow`, `pow_le_digits`: the digits of a given length.
* `pow_le_toRat_iff`: the decade of the number.
* `head?_digitChars_ne`, `getLast?_digitChars_ne`: where no zero stands.
* `digits_stripped_mod`, `length_stripped_le`: what stripping does to the digits.
-/

namespace InfixCalculator.Decimal

variable {d : Decimal} {n : Nat}

theorem length_pos (d : Decimal) : 0 < d.digitChars.length := Nat.length_toDigits_pos

theorem length_le_iff (hn : 0 < n) : d.digitChars.length ≤ n ↔ d.digits < 10 ^ n :=
  Nat.length_toDigits_le_iff (by decide) hn

theorem digits_lt_pow (d : Decimal) : d.digits < 10 ^ d.digitChars.length :=
  (length_le_iff d.length_pos).mp le_rfl

theorem pow_le_digits (h : d.digits ≠ 0) : 10 ^ (d.digitChars.length - 1) ≤ d.digits := by
  by_contra hlt
  rcases Nat.eq_zero_or_pos (d.digitChars.length - 1) with hzero | hpos
  · rw [hzero, Nat.pow_zero] at hlt
    omega
  · have hlength := (length_le_iff hpos).mpr (Nat.not_le.mp hlt)
    omega

/-! ## Decades -/

theorem digits_ne_zero (h : 0 < d.toRat) : d.digits ≠ 0 := by
  intro hzero
  rw [toRat, hzero, Nat.cast_zero, zero_mul] at h
  exact lt_irrefl 0 h

theorem toRat_lt_pow (d : Decimal) : d.toRat < 10 ^ (d.leadingExponent + 1) := by
  have hdigits : (d.digits : ℚ) < 10 ^ d.digitChars.length := by exact_mod_cast d.digits_lt_pow
  calc
    d.toRat < 10 ^ d.digitChars.length * 10 ^ d.exponent :=
      mul_lt_mul_of_pos_right hdigits (by positivity)
    _ = 10 ^ (d.leadingExponent + 1) := by
      rw [← zpow_natCast, ← zpow_add₀ (by norm_num), leadingExponent]
      congr 1
      omega

theorem pow_le_toRat (h : d.digits ≠ 0) : 10 ^ d.leadingExponent ≤ d.toRat := by
  have hdigits : (10 : ℚ) ^ (d.digitChars.length - 1) ≤ d.digits := by
    exact_mod_cast pow_le_digits h
  have hpos := d.length_pos
  calc
    (10 : ℚ) ^ d.leadingExponent = 10 ^ (d.digitChars.length - 1) * 10 ^ d.exponent := by
      rw [← zpow_natCast, ← zpow_add₀ (by norm_num), leadingExponent]
      congr 1
      omega
    _ ≤ d.toRat := mul_le_mul_of_nonneg_right hdigits (by positivity)

/-- A power of ten is not above the number exactly if it is not above that of the leading digit. -/
theorem pow_le_toRat_iff (h : d.digits ≠ 0) {k : Int} :
    10 ^ k ≤ d.toRat ↔ k ≤ d.leadingExponent := by
  constructor
  · intro hle
    have hlt := hle.trans_lt d.toRat_lt_pow
    rw [zpow_lt_zpow_iff_right₀ (by norm_num)] at hlt
    omega
  · intro hle
    exact (zpow_le_zpow_right₀ (by norm_num) hle).trans (pow_le_toRat h)

/-! ## The first and the last digit -/

theorem digitChar_ne_zero : ∀ digit < 10, digit ≠ 0 → digit.digitChar ≠ '0' := by decide

theorem head?_digitChars_ne (h : d.digits ≠ 0) : d.digitChars.head? ≠ some '0' := by
  suffices hhead : ∀ digits, digits ≠ 0 → (Nat.toDigits 10 digits).head? ≠ some '0' from hhead _ h
  intro digits hne
  induction digits using Nat.strong_induction_on with
  | h digits ih =>
    rcases Nat.lt_or_ge digits 10 with hlt | hge
    · rw [Nat.toDigits_of_lt_base hlt, List.head?_cons, Ne, Option.some.injEq]
      exact digitChar_ne_zero _ hlt hne
    · rw [Nat.toDigits_of_base_le (by decide) hge,
        List.head?_append_of_ne_nil _ Nat.toDigits_ne_nil]
      exact ih (digits / 10) (by omega) (by omega)

theorem getLast?_digitChars (d : Decimal) :
    d.digitChars.getLast? = some (d.digits % 10).digitChar := by
  rw [digitChars]
  rcases Nat.lt_or_ge d.digits 10 with hlt | hge
  · rw [Nat.toDigits_of_lt_base hlt, Nat.mod_eq_of_lt hlt, List.getLast?_singleton]
  · rw [Nat.toDigits_of_base_le (by decide) hge, List.getLast?_concat]

theorem getLast?_digitChars_ne (h : d.digits % 10 ≠ 0) : d.digitChars.getLast? ≠ some '0' := by
  rw [getLast?_digitChars, Ne, Option.some.injEq]
  exact digitChar_ne_zero _ (Nat.mod_lt _ (by decide)) h

/-! ## Stripped digits -/

theorem digits_stripped_mod (h : d.digits ≠ 0) : d.stripped.digits % 10 ≠ 0 := by
  fun_induction stripped d with
  | case1 d hzero ih => exact ih (by dsimp only; omega)
  | case2 d hzero =>
    intro hmod
    exact hzero ⟨h, hmod⟩

theorem digits_stripped_le (d : Decimal) : d.stripped.digits ≤ d.digits := by
  fun_induction stripped d with
  | case1 d hzero ih => exact ih.trans (Nat.div_le_self _ _)
  | case2 d hzero => exact le_rfl

/-- Stripping a power of ten leaves a single digit. -/
theorem length_stripped_le (hn : 0 < n) (h : d.digits ≤ 10 ^ n) :
    d.stripped.digitChars.length ≤ n := by
  rw [length_le_iff hn]
  rcases h.lt_or_eq with hlt | heq
  · exact d.digits_stripped_le.trans_lt hlt
  · have hne : d.digits ≠ 0 := by
      rw [heq]
      exact (Nat.pow_pos (by decide)).ne'
    refine lt_of_le_of_ne (d.digits_stripped_le.trans_eq heq) fun hpow => ?_
    have hmod := digits_stripped_mod hne
    rw [hpow] at hmod
    exact hmod (Nat.mod_eq_zero_of_dvd (dvd_pow_self 10 hn.ne'))

end InfixCalculator.Decimal
