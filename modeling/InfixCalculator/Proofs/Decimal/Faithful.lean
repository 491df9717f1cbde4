import InfixCalculator.Decimal.Shortest
import InfixCalculator.Proofs.Decimal.Value

/-!
# Shortest decimals are faithful

The shortest decimal of a pattern rounds to the pattern. A decimal that the search finds was tested;
the default is so close below the value that it rounds to the pattern without a test.

* `nearest_shortest`: reading a shortest decimal gives back the pattern.
* `natAbs_leadingExponent_shortest_lt`: its leading digit is not far from the point.
-/

namespace InfixCalculator.Decimal

open Binary64 (units infinity)

namespace Shortest

variable {pattern cut : Nat} {d : Decimal}

/-- A decimal that is found on a grid is one of the two neighbours and was tested. -/
theorem onGrid_eq_some (h : onGrid pattern cut = some d) :
    (d = below pattern cut ∨ d = above pattern cut) ∧ d.nearest = pattern := by
  unfold onGrid at h
  dsimp only at h
  split at h
  · next hlow =>
    split at h
    · next hhigh =>
      cases h
      exact ⟨.inr rfl, hhigh.1⟩
    · cases h
      exact ⟨.inl rfl, hlow⟩
  · split at h
    · next hhigh =>
      cases h
      exact ⟨.inr rfl, hhigh⟩
    · cases h

/-- Rounding down to a grid that is finer than half a unit leaves the pattern the nearest one. -/
theorem isNearest_floor (pattern : Nat) {unit grid : Nat} (hunit : 0 < unit)
    (hgrid : 2 * unit < grid) :
    Binary64.IsNearest ((units pattern * grid / unit : Nat) / grid * unit) pattern := by
  have hgrid' : (0 : ℚ) < grid := by exact_mod_cast (Nat.zero_le _).trans_lt hgrid
  have hfine : (2 : ℚ) * unit < grid := by exact_mod_cast hgrid
  have hle : ((units pattern * grid / unit : Nat) : ℚ) * unit ≤ units pattern * grid := by
    exact_mod_cast Nat.div_mul_le_self _ _
  have hlt : (units pattern : ℚ) * grid < ((units pattern * grid / unit : Nat) + 1) * unit := by
    exact_mod_cast (Nat.div_lt_iff_lt_mul hunit).mp (Nat.lt_succ_self _)
  generalize ((units pattern * grid / unit : Nat) : ℚ) = floor at *
  have hvalue : floor / grid * unit * grid = floor * unit := by field_simp
  apply Binary64.isNearest_of_near
  · refine le_of_mul_le_mul_right ?_ hgrid'
    rw [hvalue]
    exact hle
  · refine lt_of_mul_lt_mul_right ?_ hgrid'.le
    rw [add_mul, hvalue]
    linarith

/-- The denominator by which a value is scaled. -/
theorem denominator_scaled (digits : Nat) : denominator ⟨digits, -341⟩ = Nat.pow 10 341 := by
  delta denominator
  rfl

theorem whole_eq_div (pattern digits : Nat) :
    whole pattern = units pattern * denominator ⟨digits, -341⟩ / 1 <<< 1074 := by
  rw [denominator_scaled, whole, scaled, Nat.shiftRight_eq_div_pow, Nat.one_shiftLeft]

/-- The whole scaled part rounds to the pattern. -/
theorem nearest_whole (h : pattern < infinity) : nearest ⟨whole pattern, -341⟩ = pattern := by
  have hfine : 2 * 1 <<< 1074 < denominator ⟨whole pattern, -341⟩ := by
    rw [denominator_scaled]
    decide +kernel
  have hfloor := isNearest_floor pattern (by decide +kernel) hfine
  have hnumerator : numerator ⟨whole pattern, -341⟩ = whole pattern := Nat.mul_one _
  have hvalue : (whole pattern : ℚ) / denominator ⟨whole pattern, -341⟩ =
      toRat ⟨whole pattern, -341⟩ := by
    rw [← numerator_div_denominator, hnumerator]
  rw [← whole_eq_div, Binary64.cast_shiftLeft, Nat.cast_one, one_mul, hvalue] at hfloor
  exact nearest_eq h hfloor

/-! ## The length of the digits -/

theorem whole_mono {pattern' : Nat} (h : pattern ≤ pattern') : whole pattern ≤ whole pattern' := by
  rw [whole, whole, Nat.shiftRight_eq_div_pow, Nat.shiftRight_eq_div_pow]
  exact Nat.div_le_div_right (Nat.mul_le_mul_right _ (Binary64.strictMono_units.monotone h))

/-- No decimal near a finite value has more than 700 digits on any grid. -/
theorem length_digits_le (h : pattern < infinity) {digits : Nat}
    (hdigits : digits ≤ whole pattern + 1) : (Nat.toDigits 10 digits).length ≤ 700 := by
  refine (Nat.length_toDigits_le_iff (by decide) (by decide)).mpr ?_
  refine (hdigits.trans (Nat.succ_le_succ (whole_mono h.le))).trans_lt ?_
  decide +kernel

end Shortest

open Shortest

/-- The shortest decimal is, but for trailing zeros, one that was found on a grid, or the whole
scaled part. -/
theorem exists_shortest_eq (pattern : Nat) :
    ∃ d, shortest pattern = d.stripped ∧ (d = ⟨whole pattern, -341⟩ ∨
      ∃ cut ≤ (Nat.toDigits 10 (whole pattern)).length, onGrid pattern cut = some d) := by
  refine ⟨_, rfl, ?_⟩
  cases hfound : (List.range' 1 17).findSome? fun count =>
      onGrid pattern ((Nat.toDigits 10 (whole pattern)).length - count) with
  | none => exact .inl rfl
  | some d =>
    obtain ⟨count, -, hcount⟩ := List.exists_of_findSome?_eq_some hfound
    exact .inr ⟨_, Nat.sub_le _ _, hcount⟩

/-- The shortest decimal of a finite pattern rounds to it. -/
theorem nearest_shortest {pattern : Nat} (h : pattern < infinity) :
    (shortest pattern).nearest = pattern := by
  obtain ⟨d, heq, hd⟩ := exists_shortest_eq pattern
  rw [heq, nearest_congr d.toRat_stripped]
  rcases hd with rfl | ⟨cut, -, hgrid⟩
  · exact nearest_whole h
  · exact (onGrid_eq_some hgrid).2

/-- The leading digit of the shortest decimal of a finite pattern is not far from the point. -/
theorem natAbs_leadingExponent_shortest_lt {pattern : Nat} (h : pattern < infinity) :
    (shortest pattern).leadingExponent.natAbs < 65536 := by
  obtain ⟨d, heq, hd⟩ := exists_shortest_eq pattern
  have hlength := length_digits_le h (Nat.le_succ (whole pattern))
  have hbounds : d.digits ≤ whole pattern + 1 ∧ -341 ≤ d.exponent ∧ d.exponent ≤ 700 := by
    rcases hd with rfl | ⟨cut, hcut, hgrid⟩
    · exact ⟨Nat.le_succ _, le_refl _, (by decide : (-341 : Int) ≤ 700)⟩
    · have hquotient := Nat.div_le_self (whole pattern) (Nat.pow 10 cut)
      rcases (onGrid_eq_some hgrid).1 with rfl | rfl
      · exact ⟨Nat.le_succ_of_le hquotient, by simp only [below]; omega, by simp only [below]; omega⟩
      · exact ⟨Nat.succ_le_succ hquotient, by simp only [above]; omega, by simp only [above]; omega⟩
  obtain ⟨hdigits, hlow, hhigh⟩ := hbounds
  have hmost := length_digits_le h hdigits
  rw [heq, leadingExponent_stripped, leadingExponent, digitChars]
  omega

end InfixCalculator.Decimal
