import InfixCalculator.Proofs.Binary64.Interval
import InfixCalculator.Proofs.Decimal.Faithful
import InfixCalculator.Proofs.Decimal.Length

/-!
# Shortest decimals are shortest and closest

The search for the shortest decimal looks at the two neighbours of a value on the grids of decimals
with one, two, … digits. Nothing is missed: a decimal that rounds to the pattern may be replaced by
a point of the grid that belongs to its number of digits, and this by one of the two neighbours,
without going away from the value. And the search ends, because the two neighbours with seventeen
digits are closer to each other than the interval of the pattern is wide.

* `IsShortest`: a decimal that rounds to a pattern, with the fewest digits, and closest to its value.
* `Shortest.le_magnitude_iff`: the points of a grid that are not above a value.
* `Shortest.exists_onGrid`: what is found on a grid is as close as any decimal with as many digits.
* `Shortest.exists_onGrid_seventeen`: something is found with seventeen digits.
* `isShortest_shortest`: the search finds a shortest decimal.
* `IsShortest.pow_le_toRat_iff`: a shortest decimal lies in the decade of the value.
-/

namespace InfixCalculator.Decimal

open Binary64 (units infinity magnitude RoundsTo)

variable {p : Nat} {d : Decimal}

/-- A decimal without a zero at its end that rounds to the pattern. None that rounds to it has fewer
digits, and none with as many digits is closer to the value of the pattern. -/
structure IsShortest (d : Decimal) (p : Nat) : Prop where
  stripped : d.digits % 10 ≠ 0
  roundsTo : RoundsTo d.toRat p
  shortest : ∀ d' : Decimal, RoundsTo d'.toRat p → d.digitChars.length ≤ d'.digitChars.length
  closest : ∀ d' : Decimal, RoundsTo d'.toRat p → d'.digitChars.length = d.digitChars.length →
    |d.toRat - magnitude p| ≤ |d'.toRat - magnitude p|

/-- The patterns of decimals are those that their numbers round to. -/
theorem nearest_eq_iff (hp : p < infinity) : d.nearest = p ↔ RoundsTo d.toRat p := by
  constructor
  · intro h
    obtain ⟨p', hp', hmin⟩ := d.exists_roundsTo
    obtain rfl : p' = p := by omega
    exact hp'
  · exact nearest_eq hp

namespace Shortest

variable {cut : Nat}

/-! ## Points of a grid -/

theorem pow_ten_pos (n : Nat) : 0 < Nat.pow 10 n := Nat.pow_pos (by decide)

theorem cast_pow_ten (n : Nat) : ((Nat.pow 10 n : Nat) : ℚ) = 10 ^ (n : ℤ) := by
  rw [zpow_natCast]
  exact Nat.cast_pow 10 n

theorem cast_denominator (places : Nat) : (denominator ⟨0, -places⟩ : ℚ) = 10 ^ (places : ℤ) := by
  rw [denominator, neg_neg, Int.toNat_natCast, cast_pow_ten]

/-- The factor by which numbers are scaled before the search compares them. -/
def factor : ℚ := denominator ⟨0, -341⟩ * 2 ^ 1074

theorem factor_pos : 0 < factor :=
  mul_pos (Nat.cast_pos.mpr (denominator_pos _)) (by positivity)

theorem toRat_mul_factor (digits cut : Nat) :
    toRat ⟨digits, cut - 341⟩ * factor = (digits * Nat.pow 10 cut : Nat) * 2 ^ 1074 := by
  have hdenominator : (denominator ⟨0, -341⟩ : ℚ) = 10 ^ (341 : ℤ) := cast_denominator 341
  rw [toRat, factor, hdenominator, ← mul_assoc, mul_assoc (digits : ℚ),
    ← zpow_add₀ (by norm_num), sub_add_cancel, Nat.cast_mul, cast_pow_ten]

theorem cast_scaled (p : Nat) : (scaled p : ℚ) = magnitude p * factor := by
  have hscaled : scaled p = units p * denominator ⟨0, -341⟩ := by rw [denominator_scaled, scaled]
  rw [hscaled, Nat.cast_mul, factor, mul_left_comm, Binary64.magnitude_mul, mul_comm]

/-- The points of a grid up to a value are those up to `below`. -/
theorem le_magnitude_iff {digits : Nat} :
    toRat ⟨digits, cut - 341⟩ ≤ magnitude p ↔ digits ≤ whole p / Nat.pow 10 cut := by
  have hshift : ∀ m n shift : Nat, m ≤ n >>> shift ↔ m <<< shift ≤ n := by
    intro m n shift
    rw [Nat.shiftRight_eq_div_pow, Nat.le_div_iff_mul_le (Nat.two_pow_pos shift), Nat.shiftLeft_eq]
  rw [← mul_le_mul_iff_left₀ factor_pos, toRat_mul_factor, ← cast_scaled,
    ← Binary64.cast_shiftLeft, Nat.cast_le, Nat.le_div_iff_mul_le (pow_ten_pos cut), whole, hshift]

theorem toRat_below_le (p cut : Nat) : (below p cut).toRat ≤ magnitude p :=
  le_magnitude_iff.mpr le_rfl

theorem lt_toRat_above (p cut : Nat) : magnitude p < (above p cut).toRat := by
  by_contra hle
  exact absurd (le_magnitude_iff.mp (not_lt.mp hle)) (Nat.not_succ_le_self _)

theorem toRat_mono {digits digits' : Nat} (exponent : Int) (h : digits ≤ digits') :
    toRat ⟨digits, exponent⟩ ≤ toRat ⟨digits', exponent⟩ :=
  mul_le_mul_of_nonneg_right (Nat.cast_le.mpr h) (by positivity)

/-- No point of a grid lies between a value and its neighbours. -/
theorem exists_neighbour {digits : Nat} (h : RoundsTo (toRat ⟨digits, cut - 341⟩) p) :
    ∃ d, (d = below p cut ∨ d = above p cut) ∧ RoundsTo d.toRat p ∧
      |d.toRat - magnitude p| ≤ |toRat ⟨digits, cut - 341⟩ - magnitude p| := by
  rcases Nat.lt_or_ge (whole p / Nat.pow 10 cut) digits with habove | hbelow
  · refine ⟨above p cut, .inr rfl, h.between (.inr ⟨(lt_toRat_above p cut).le, ?_⟩)⟩
    exact toRat_mono _ habove
  · refine ⟨below p cut, .inl rfl, h.between (.inl ⟨?_, toRat_below_le p cut⟩)⟩
    exact toRat_mono _ hbelow

/-- The value is compared with the middle of its neighbours. -/
theorem nearerBelow_iff :
    nearerBelow p cut = true ↔ 2 * magnitude p < (below p cut).toRat + (above p cut).toRat := by
  have hmiddle : ((below p cut).toRat + (above p cut).toRat) * factor =
      ((2 * (whole p / Nat.pow 10 cut) + 1) * Nat.pow 10 cut : Nat) * 2 ^ 1074 := by
    rw [add_mul, below, above, toRat_mul_factor, toRat_mul_factor, ← add_mul,
      ← Nat.cast_add]
    congr 2
    ring
  rw [nearerBelow, decide_eq_true_iff, ← mul_lt_mul_iff_left₀ factor_pos, hmiddle, mul_assoc,
    ← cast_scaled, ← @Nat.cast_lt ℚ, Nat.cast_mul, Nat.cast_ofNat, Binary64.cast_shiftLeft]

/-- If a neighbour rounds to the pattern, the search takes the closest that does. -/
theorem exists_onGrid_eq (hfinite : p < infinity) {neighbour : Decimal}
    (hneighbour : neighbour = below p cut ∨ neighbour = above p cut)
    (h : RoundsTo neighbour.toRat p) :
    ∃ d, onGrid p cut = some d ∧
      |d.toRat - magnitude p| ≤ |neighbour.toRat - magnitude p| := by
  have hbelow := toRat_below_le p cut
  have habove := lt_toRat_above p cut
  have hbelow' : |(below p cut).toRat - magnitude p| = magnitude p - (below p cut).toRat := by
    rw [abs_of_nonpos (by linarith), neg_sub]
  have habove' : |(above p cut).toRat - magnitude p| = (above p cut).toRat - magnitude p :=
    abs_of_pos (by linarith)
  have hnearest := (nearest_eq_iff hfinite).mpr h
  unfold onGrid
  dsimp only
  by_cases hlow : (below p cut).nearest = p
  · rw [if_pos hlow]
    by_cases hhigh : (above p cut).nearest = p ∧ ¬ nearerBelow p cut
    · refine ⟨_, if_pos hhigh, ?_⟩
      have hmiddle := nearerBelow_iff.not.mp hhigh.2
      rcases hneighbour with rfl | rfl
      · linarith
      · rfl
    · refine ⟨_, if_neg hhigh, ?_⟩
      rcases hneighbour with rfl | rfl
      · rfl
      · have hmiddle := nearerBelow_iff.mp (not_not.mp (not_and.mp hhigh hnearest))
        linarith
  · rcases hneighbour with rfl | rfl
    · exact absurd hnearest hlow
    · exact ⟨_, by rw [if_neg hlow, if_pos hnearest], le_rfl⟩

/-! ## Decimals and grids -/

/-- The number of digits of the scaled value. -/
def wholeLength (p : Nat) : Nat := (Nat.toDigits 10 (whole p)).length

theorem pow_seventeen_le_whole (h : p ≠ 0) : 10 ^ 17 ≤ whole p := by
  have hleast : 10 ^ 17 ≤ whole 1 := by decide +kernel
  exact hleast.trans (whole_mono (Nat.pos_of_ne_zero h))

theorem seventeen_lt_wholeLength (h : p ≠ 0) : 17 < wholeLength p := by
  by_contra hle
  have hlt := (length_le_iff (d := ⟨whole p, 0⟩) (by decide)).mp (Nat.not_lt.mp hle)
  exact absurd (pow_seventeen_le_whole h) (Nat.not_le.mpr hlt)

/-- What is left of the digits of the scaled value. -/
theorem quotient_bounds (h : p ≠ 0) {n : Nat} (hn : 0 < n) (hcut : cut + n = wholeLength p) :
    10 ^ (n - 1) ≤ whole p / Nat.pow 10 cut ∧ whole p / Nat.pow 10 cut < 10 ^ n := by
  have hne : whole p ≠ 0 := by
    have hpow := pow_seventeen_le_whole h
    omega
  have hlow : 10 ^ (wholeLength p - 1) ≤ whole p := pow_le_digits (d := ⟨whole p, 0⟩) hne
  have hhigh : whole p < 10 ^ wholeLength p := digits_lt_pow ⟨whole p, 0⟩
  have hsplit : wholeLength p - 1 = n - 1 + cut := by omega
  constructor
  · rw [Nat.le_div_iff_mul_le (pow_ten_pos cut)]
    rw [hsplit, Nat.pow_add] at hlow
    exact hlow
  · rw [Nat.div_lt_iff_lt_mul (pow_ten_pos cut)]
    rw [← hcut, Nat.add_comm, Nat.pow_add] at hhigh
    exact hhigh

/-- A decimal that rounds to the pattern is not closer to the value than a point, which rounds to it
as well, of the grid that belongs to its number of digits. -/
theorem exists_point (h : p ≠ 0) {n : Nat} (hcut : cut + n = wholeLength p)
    (hd : RoundsTo d.toRat p) (hn : d.digitChars.length ≤ n) :
    ∃ digits, RoundsTo (toRat ⟨digits, cut - 341⟩) p ∧
      |toRat ⟨digits, cut - 341⟩ - magnitude p| ≤ |d.toRat - magnitude p| := by
  have hpos : 0 < n := d.length_pos.trans_le hn
  rcases le_or_gt (cut - 341 : Int) d.exponent with hfine | hcoarse
  · -- the decimal itself is a point of the grid
    obtain ⟨zeros, hzeros⟩ := Int.eq_ofNat_of_zero_le (Int.sub_nonneg.mpr hfine)
    have hexponent : (cut - 341 : Int) = d.exponent - zeros := by omega
    refine ⟨d.digits * 10 ^ zeros, ?_⟩
    rw [hexponent, toRat_mul_pow]
    exact ⟨hd, le_rfl⟩
  · -- the decimal is less than the power of ten that has `n` digits on the grid
    have hvalue : toRat ⟨10 ^ (n - 1), cut - 341⟩ ≤ magnitude p :=
      le_magnitude_iff.mpr (quotient_bounds h hpos hcut).1
    have hpower : toRat ⟨10 ^ (n - 1), cut - 341⟩ = 10 ^ ((n - 1 : Nat) + (cut - 341) : Int) := by
      rw [zpow_add₀ (by norm_num), zpow_natCast, toRat, Nat.cast_pow, Nat.cast_ofNat]
    have hleading : d.leadingExponent + 1 ≤ (n - 1 : Nat) + (cut - 341) := by
      rw [leadingExponent]
      omega
    refine ⟨10 ^ (n - 1), hd.between (.inl ⟨?_, hvalue⟩)⟩
    rw [hpower]
    exact d.toRat_lt_pow.le.trans (zpow_le_zpow_right₀ (by norm_num) hleading)

/-- What the search finds on a grid is as close as any decimal with as many digits. -/
theorem exists_onGrid (h : p ≠ 0) (hfinite : p < infinity) {n : Nat}
    (hcut : cut + n = wholeLength p) (hd : RoundsTo d.toRat p) (hn : d.digitChars.length ≤ n) :
    ∃ found, onGrid p cut = some found ∧
      |found.toRat - magnitude p| ≤ |d.toRat - magnitude p| := by
  obtain ⟨digits, hpoint, hclose⟩ := exists_point h hcut hd hn
  obtain ⟨neighbour, hneighbour, hrounds, hcloser⟩ := exists_neighbour hpoint
  obtain ⟨found, hfound, hclosest⟩ := exists_onGrid_eq hfinite hneighbour hrounds
  exact ⟨found, hfound, hclosest.trans (hcloser.trans hclose)⟩

/-- With seventeen digits something is found. -/
theorem exists_onGrid_seventeen (h : p ≠ 0) (hfinite : p < infinity)
    (hcut : cut + 17 = wholeLength p) : ∃ found, onGrid p cut = some found := by
  have hlow := (quotient_bounds h (by decide) hcut).1
  have hclose : 10 ^ 16 * ((above p cut).toRat - (below p cut).toRat) ≤ magnitude p := by
    calc
      10 ^ 16 * ((above p cut).toRat - (below p cut).toRat) = toRat ⟨10 ^ 16, cut - 341⟩ := by
        simp only [above, below, toRat]
        push_cast
        ring
      _ ≤ magnitude p := le_magnitude_iff.mpr hlow
  rcases Binary64.roundsTo_or_roundsTo h (toRat_below_le p cut) (lt_toRat_above p cut) hclose with
    hbelow | habove
  · obtain ⟨found, hfound, -⟩ := exists_onGrid_eq hfinite (.inl rfl) hbelow
    exact ⟨found, hfound⟩
  · obtain ⟨found, hfound, -⟩ := exists_onGrid_eq hfinite (.inr rfl) habove
    exact ⟨found, hfound⟩

/-! ## The search -/

/-- A search upwards stops at the least number for which something is found. -/
theorem exists_least_of_findSome? {α : Type} {f : Nat → Option α} {a : α} {start count : Nat}
    (h : (List.range' start count).findSome? f = some a) :
    ∃ n, start ≤ n ∧ n < start + count ∧ f n = some a ∧ ∀ m, start ≤ m → m < n → f m = none := by
  induction count generalizing start with
  | zero => cases h
  | succ count ih =>
    rw [List.range'_succ, List.findSome?_cons] at h
    cases hstart : f start with
    | some b =>
      rw [hstart] at h
      exact ⟨start, le_rfl, by omega, hstart.trans h, fun m hm hlt => absurd hlt (by omega)⟩
    | none =>
      rw [hstart] at h
      obtain ⟨n, hle, hlt, hn, hleast⟩ := ih h
      refine ⟨n, by omega, by omega, hn, fun m hm hmn => ?_⟩
      rcases hm.eq_or_lt with rfl | hgt
      · exact hstart
      · exact hleast m hgt hmn

/-- The search stops at the least number of digits with which something is found. -/
theorem exists_shortest_eq_stripped (h : p ≠ 0) (hfinite : p < infinity) :
    ∃ n found, 0 < n ∧ n ≤ 17 ∧ onGrid p (wholeLength p - n) = some found ∧
      (∀ m, 0 < m → m < n → onGrid p (wholeLength p - m) = none) ∧
      shortest p = found.stripped := by
  have hlength := seventeen_lt_wholeLength h
  cases hsearch : (List.range' 1 17).findSome? fun count => onGrid p (wholeLength p - count) with
  | none =>
    have hcut : wholeLength p - 17 + 17 = wholeLength p := Nat.sub_add_cancel hlength.le
    obtain ⟨last, hlast⟩ := exists_onGrid_seventeen h hfinite hcut
    have hnone := List.findSome?_eq_none_iff.mp hsearch 17 (by decide)
    rw [hlast] at hnone
    contradiction
  | some found =>
    obtain ⟨n, hpos, hlt, hfound, hleast⟩ := exists_least_of_findSome? hsearch
    refine ⟨n, found, hpos, by omega, hfound, hleast, ?_⟩
    unfold wholeLength at hsearch
    rw [shortest, hsearch, Option.getD_some]

end Shortest

open Shortest

/-- The search finds a shortest decimal. -/
theorem isShortest_shortest (h : p ≠ 0) (hfinite : p < infinity) : IsShortest (shortest p) p := by
  have hlength := seventeen_lt_wholeLength h
  obtain ⟨n, found, hpos, hle, hfound, hleast, heq⟩ := exists_shortest_eq_stripped h hfinite
  obtain ⟨hneighbour, hnearest⟩ := onGrid_eq_some hfound
  have hrounds : RoundsTo found.toRat p := (nearest_eq_iff hfinite).mp hnearest
  have hcut : ∀ m ≤ n, wholeLength p - m + m = wholeLength p := fun m hm => by omega
  have hdigits : found.digits ≤ 10 ^ n := by
    have hhigh := (quotient_bounds h hpos (hcut n le_rfl)).2
    rcases hneighbour with rfl | rfl
    · exact hhigh.le
    · exact hhigh
  have hmost : found.stripped.digitChars.length ≤ n := length_stripped_le hpos hdigits
  rw [heq]
  constructor
  · exact digits_stripped_mod (digits_ne_zero (hrounds.pos h))
  · rw [toRat_stripped]
    exact hrounds
  · intro d hd
    by_contra hlt
    have hless : d.digitChars.length < n := by omega
    obtain ⟨other, hother, -⟩ := exists_onGrid h hfinite (hcut _ hless.le) hd le_rfl
    rw [hleast _ d.length_pos hless] at hother
    contradiction
  · intro d hd hsame
    obtain ⟨other, hother, hclose⟩ :=
      exists_onGrid h hfinite (hcut n le_rfl) hd (hsame.trans_le hmost)
    rw [hfound, Option.some.injEq] at hother
    rw [toRat_stripped, hother]
    exact hclose

/-! ## Decades -/

/-- A number that a decimal denotes is compared with a value in natural numbers. -/
theorem toRat_le_magnitude_iff :
    d.toRat ≤ magnitude p ↔ d.numerator <<< 1074 ≤ units p * d.denominator := by
  have hdenominator : (0 : ℚ) < d.denominator := Nat.cast_pos.mpr d.denominator_pos
  have hscale : (0 : ℚ) < 2 ^ 1074 := by positivity
  rw [← numerator_div_denominator, magnitude, div_le_div_iff₀ hdenominator hscale,
    ← Binary64.cast_shiftLeft, ← Nat.cast_mul, Nat.cast_le]

theorem toRat_one (k : Int) : toRat ⟨1, k⟩ = 10 ^ k := by
  rw [toRat, Nat.cast_one, one_mul]

theorem length_one (k : Int) : (digitChars ⟨1, k⟩).length = 1 :=
  le_antisymm ((length_le_iff one_pos).mpr (by norm_num)) (length_pos _)

/-- A shortest decimal is not below a power of ten that the value reaches: the power itself would be
closer, and no decimal is shorter. -/
theorem IsShortest.pow_le_toRat (hd : IsShortest d p) {k : Int} (h : 10 ^ k ≤ magnitude p) :
    10 ^ k ≤ d.toRat := by
  by_contra hlt
  have hbelow : d.toRat < 10 ^ k := not_le.mp hlt
  have hpower : RoundsTo (toRat ⟨1, k⟩) p := by
    rw [toRat_one]
    exact hd.roundsTo.convex (Binary64.roundsTo_magnitude p) hbelow.le h
  have hshort := hd.shortest _ hpower
  rw [length_one] at hshort
  have hlength : d.digitChars.length = 1 := le_antisymm hshort d.length_pos
  have hclosest := hd.closest _ hpower ((length_one k).trans hlength.symm)
  rw [toRat_one, abs_of_nonpos (by linarith), abs_of_nonpos (by linarith)] at hclosest
  linarith

/-- A shortest decimal reaches exactly the powers of ten that the value reaches, if the value that a
power rounds to does. -/
theorem IsShortest.pow_le_toRat_iff (hd : IsShortest d p) {k : Int} {power : Nat}
    (hfinite : power < infinity) (hnearest : nearest ⟨1, k⟩ = power)
    (hpower : toRat ⟨1, k⟩ ≤ magnitude power) : 10 ^ k ≤ d.toRat ↔ 10 ^ k ≤ magnitude p := by
  have hrounds := (nearest_eq_iff hfinite).mp hnearest
  rw [toRat_one] at hrounds hpower
  constructor
  · intro hle
    have hpatterns : power ≤ p := hrounds.mono hd.roundsTo hle
    exact hpower.trans (Binary64.strictMono_magnitude.monotone hpatterns)
  · exact hd.pow_le_toRat

end InfixCalculator.Decimal
