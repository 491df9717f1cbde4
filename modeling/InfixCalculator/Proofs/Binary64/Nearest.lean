import InfixCalculator.Binary64.Bits
import InfixCalculator.Proofs.Binary64.Interval

/-!
# Rounding to the nearest float

To round to a pattern means to have no other pattern closer by, and to have none as close unless the
pattern is even. The numbers that round to zero end at the midpoint over the pattern zero, which is
even, and those that round to a finite pattern end below the midpoint over the last finite one, which
is odd. With a sign, the float that a number rounds to is the closest one among all finite floats of
either sign.

* `RoundsTo.closer_or_even`: the distance to other patterns.
* `RoundsTo.eq_zero_iff`, `RoundsTo.infinity_le_iff`: the numbers that vanish and that overflow.
* `toRat`, `IsClosest`, `IsRounding`: values of floats, and the float that a number rounds to.
* `RoundsTo.isRounding`, `RoundsTo.toRat_mono`: the float made of a sign and of the pattern of a
  number, and the order of two of them.
-/

namespace InfixCalculator.Binary64

variable {x y : ℚ} {p q : Nat}

/-! ## Distances -/

/-- The closer one of two numbers is told by their middle. -/
theorem abs_sub_lt_abs_sub_iff {a b : ℚ} :
    |x - b| < |x - a| ↔ 0 < (b - a) * (x - (a + b) / 2) := by
  rw [← sq_lt_sq]
  constructor
  · intro h
    linarith
  · intro h
    linarith

theorem abs_sub_le_abs_sub_iff {a b : ℚ} :
    |x - b| ≤ |x - a| ↔ 0 ≤ (b - a) * (x - (a + b) / 2) := by
  rw [← sq_le_sq]
  constructor
  · intro h
    linarith
  · intro h
    linarith

/-- No other value is closer to a number than the one that it rounds to, and none is as close if the
pattern is odd. -/
theorem IsNearest.closer_or_even (h : IsNearest x p) (hne : q ≠ p) :
    |x - units p| < |x - units q| ∨ |x - units p| ≤ |x - units q| ∧ Even p := by
  rw [abs_sub_lt_abs_sub_iff, abs_sub_le_abs_sub_iff]
  rcases Nat.lt_or_gt_of_ne hne with hlt | hlt
  · -- the middle of the two is at most the midpoint under the pattern
    obtain ⟨below, rfl⟩ := Nat.exists_eq_add_one_of_ne_zero (Nat.ne_zero_of_lt hlt)
    have hvalues : (units q : ℚ) < units (below + 1) := by exact_mod_cast strictMono_units hlt
    have hbelow : (units q : ℚ) ≤ units below := by
      exact_mod_cast strictMono_units.monotone (Nat.le_of_lt_succ hlt)
    refine (h.lower below rfl).imp (fun hlower => ?_) fun hlower => ⟨?_, hlower.2⟩
    · rw [midpoint] at hlower
      exact mul_pos (by linarith) (by linarith)
    · rw [midpoint] at hlower
      exact mul_nonneg (by linarith) (by linarith [hlower.1])
  · have hvalues : (units p : ℚ) < units q := by exact_mod_cast strictMono_units hlt
    have habove : (units (p + 1) : ℚ) ≤ units q := by
      exact_mod_cast strictMono_units.monotone (Nat.succ_le_of_lt hlt)
    refine h.upper.imp (fun hupper => ?_) fun hupper => ⟨?_, hupper.2⟩
    · rw [midpoint] at hupper
      exact mul_pos_of_neg_of_neg (by linarith) (by linarith)
    · rw [midpoint] at hupper
      exact mul_nonneg_of_nonpos_of_nonpos (by linarith) (by linarith [hupper.1])

theorem abs_sub_units (x : ℚ) (p : Nat) :
    |x * 2 ^ 1074 - units p| = |x - magnitude p| * 2 ^ 1074 := by
  have hscale : (0 : ℚ) ≤ 2 ^ 1074 := by positivity
  rw [← magnitude_mul, ← sub_mul, abs_mul, abs_of_nonneg hscale]

theorem RoundsTo.closer_or_even (h : RoundsTo x p) (hne : q ≠ p) :
    |x - magnitude p| < |x - magnitude q| ∨ |x - magnitude p| ≤ |x - magnitude q| ∧ Even p := by
  have hscale : (0 : ℚ) < 2 ^ 1074 := by positivity
  have hunits := IsNearest.closer_or_even h hne
  rw [abs_sub_units, abs_sub_units] at hunits
  rwa [mul_lt_mul_iff_left₀ hscale, mul_le_mul_iff_left₀ hscale] at hunits

/-! ## Where patterns begin and end -/

/-- The numbers that round to a pattern above another one begin at the midpoint over the latter. -/
theorem IsNearest.lt_iff (h : IsNearest x p) (q : Nat) :
    q < p ↔ midpoint q < x ∨ midpoint q = x ∧ ¬ Even q := by
  constructor
  · intro hlt
    obtain ⟨below, rfl⟩ := Nat.exists_eq_add_one_of_ne_zero (Nat.ne_zero_of_lt hlt)
    rcases (Nat.le_of_lt_succ hlt).lt_or_eq with hlt | rfl
    · have hmidpoint := strictMono_midpoint hlt
      exact .inl ((h.lower below rfl).elim hmidpoint.trans fun hlower =>
        hmidpoint.trans_eq hlower.1)
    · exact (h.lower q rfl).imp_right fun hlower => ⟨hlower.1, Nat.even_add_one.mp hlower.2⟩
  · intro hx
    by_contra hle
    have hmidpoint := strictMono_midpoint.monotone (Nat.not_lt.mp hle)
    rcases hx with hx | ⟨hx, hodd⟩
    · rcases h.upper with hupper | ⟨hupper, -⟩ <;> linarith
    · rcases h.upper with hupper | ⟨hupper, heven⟩
      · linarith
      · exact hodd (strictMono_midpoint.injective (hx.trans hupper) ▸ heven)

/-- The numbers that vanish. -/
theorem RoundsTo.eq_zero_iff (h : RoundsTo x p) : p = 0 ↔ x ≤ 1 / 2 ^ 1075 := by
  have hmidpoint : midpoint 0 = 1 / 2 := by norm_num [midpoint, units, leadingBit]
  have hscale : (0 : ℚ) < 2 ^ 1074 := by positivity
  have hlt := IsNearest.lt_iff h 0
  rw [hmidpoint] at hlt
  have hpos : 0 < p ↔ 1 / 2 < x * 2 ^ 1074 := by simpa using hlt
  have hbound : 1 / 2 < x * 2 ^ 1074 ↔ 1 / 2 ^ 1075 < x := by
    rw [pow_succ' (2 : ℚ) 1074, ← div_div, div_lt_iff₀ hscale]
  rw [← not_lt, ← hbound, ← hpos, Nat.pos_iff_ne_zero, not_not]

/-- The midpoint over the greatest finite pattern. -/
theorem midpoint_last : midpoint (infinity - 1) = (2 ^ 1024 - 2 ^ 970) * 2 ^ 1074 := by
  have hpattern : infinity - 1 = 2045 * leadingBit + (2 * leadingBit - 1) := by decide
  have hleading : ((2 * leadingBit - 1 : Nat) : ℚ) = 2 ^ 53 - 1 := by norm_num [leadingBit]
  have hscale : (2 : ℚ) ^ 2045 = 2 * 2 ^ 970 * 2 ^ 1074 := by rw [← pow_succ', ← pow_add]
  have hgreatest : (2 : ℚ) ^ 1024 = 2 ^ 54 * 2 ^ 970 := by rw [← pow_add]
  rw [hpattern, midpoint_add (.inr (by decide)) (by decide), hleading, hscale, hgreatest]
  generalize (2 : ℚ) ^ 970 = last
  generalize (2 : ℚ) ^ 1074 = scale
  ring

/-- The numbers that overflow. -/
theorem RoundsTo.infinity_le_iff (h : RoundsTo x p) :
    infinity ≤ p ↔ 2 ^ 1024 - 2 ^ 970 ≤ x := by
  have hodd : ¬ Even (infinity - 1) := by decide
  have hscale : (0 : ℚ) < 2 ^ 1074 := by positivity
  have hinfinity : infinity ≤ p ↔ infinity - 1 < p := by
    rw [infinity]
    omega
  rw [hinfinity, IsNearest.lt_iff h, and_iff_left hodd, ← le_iff_lt_or_eq, midpoint_last,
    mul_le_mul_iff_left₀ hscale]

/-! ## Floats -/

/-- A number with a sign; `true` stands for a minus sign. -/
def signed (negative : Bool) (x : ℚ) : ℚ := if negative then -x else x

/-- The float is neither infinite nor a NaN. -/
def IsFinite (v : Float) : Prop := pattern v < infinity

/-- The exact value of a float. An infinite one counts as the next value after the finite ones. -/
def toRat (v : Float) : ℚ := signed (isNegative v) (magnitude (pattern v))

/-- Among the finite floats none is closer to the number, and none with another value is as close,
unless the pattern is even. -/
structure IsClosest (r : ℚ) (v : Float) : Prop where
  finite : IsFinite v
  closest : ∀ w, IsFinite w → |r - toRat v| ≤ |r - toRat w|
  tie : ∀ w, IsFinite w → toRat w ≠ toRat v → |r - toRat w| = |r - toRat v| → Even (pattern v)

/-- The float that a number with a sign rounds to. It has the sign, also if it is zero or infinite;
short of the midpoint after the last finite one, it is the closest one. -/
structure IsRounding (negative : Bool) (x : ℚ) (v : Float) : Prop where
  sign : isNegative v = negative
  closest : x < 2 ^ 1024 - 2 ^ 970 → IsClosest (signed negative x) v
  overflow : pattern v = infinity ↔ 2 ^ 1024 - 2 ^ 970 ≤ x
  underflow : pattern v = 0 ↔ x ≤ 1 / 2 ^ 1075

theorem magnitude_nonneg (p : Nat) : 0 ≤ magnitude p :=
  magnitude_zero.symm.trans_le (strictMono_magnitude.monotone (Nat.zero_le p))

theorem abs_signed (negative : Bool) (hx : 0 ≤ x) : |signed negative x| = x := by
  cases negative with
  | false => exact abs_of_nonneg hx
  | true => exact (abs_neg x).trans (abs_of_nonneg hx)

theorem abs_signed_sub_signed (negative : Bool) (x y : ℚ) :
    |signed negative x - signed negative y| = |x - y| := by
  cases negative with
  | false => rfl
  | true => exact (congrArg abs (neg_sub_neg x y)).trans (abs_sub_comm y x)

theorem toRat_toFloat (negative : Bool) (hp : p ≤ infinity) :
    toRat (toFloat negative p) = signed negative (magnitude p) := by
  rw [toRat, isNegative_toFloat hp, pattern_toFloat hp]

/-- No float is closer to a number with a sign than its absolute value is to that of the number. -/
theorem abs_sub_magnitude_le (negative : Bool) (hx : 0 ≤ x) (w : Float) :
    |x - magnitude (pattern w)| ≤ |signed negative x - toRat w| := by
  have h := abs_abs_sub_abs_le (signed negative x) (toRat w)
  rwa [toRat, abs_signed _ hx, abs_signed _ (magnitude_nonneg _)] at h

/-- A number other than zero is closer to a value of its own sign than to that of the other one. -/
theorem abs_sub_lt_of_sign_ne {negative negative' : Bool} (hne : negative' ≠ negative) (hx : 0 < x)
    (hy : 0 < y) : |x - y| < |signed negative x - signed negative' y| := by
  obtain rfl : negative' = !negative := Bool.eq_not.mpr hne
  have hopposite : |signed negative x - signed (!negative) y| = x + y := by
    cases negative with
    | false => exact (congrArg abs (sub_neg_eq_add x y)).trans (abs_of_pos (add_pos hx hy))
    | true =>
      rw [← abs_neg]
      exact (congrArg abs (by simp [signed]; ring)).trans (abs_of_pos (add_pos hx hy))
  rw [hopposite, abs_lt]
  constructor <;> linarith

theorem RoundsTo.isClosest (h : RoundsTo x p) (hx : 0 ≤ x) (hp : p < infinity)
    (negative : Bool) : IsClosest (signed negative x) (toFloat negative p) := by
  have hvalue := toRat_toFloat negative hp.le
  have hpattern : pattern (toFloat negative p) = p := pattern_toFloat hp.le
  refine ⟨by rwa [IsFinite, hpattern], ?_, ?_⟩
  · intro w _
    rw [hvalue, abs_signed_sub_signed]
    refine le_trans ?_ (abs_sub_magnitude_le negative hx w)
    by_cases hw : pattern w = p
    · rw [hw]
    · exact (h.closer_or_even hw).elim le_of_lt And.left
  · intro w _ hne heq
    rw [hvalue, abs_signed_sub_signed] at heq
    rw [hpattern]
    by_cases hw : pattern w = p
    · -- the other zero has the same value, and any other opposite value is not as close
      by_contra hodd
      have hzero : p ≠ 0 := by
        rintro rfl
        exact hodd Even.zero
      have hmagnitude : 0 < magnitude p :=
        (magnitude_nonneg 0).trans_lt (strictMono_magnitude (Nat.pos_of_ne_zero hzero))
      have hsign : isNegative w ≠ negative := by
        intro hsame
        exact hne (by rw [hvalue, toRat, hsame, hw])
      have hlt := abs_sub_lt_of_sign_ne hsign (h.pos hzero) hmagnitude
      rw [← heq, toRat, hw] at hlt
      exact lt_irrefl _ hlt
    · rcases h.closer_or_even hw with hlt | ⟨-, heven⟩
      · exact absurd heq (hlt.trans_le (abs_sub_magnitude_le negative hx w)).ne'
      · exact heven

/-- The float with a sign and the pattern of a number is the one that the number rounds to. -/
theorem RoundsTo.isRounding (h : RoundsTo x p) (hx : 0 ≤ x) (negative : Bool) :
    IsRounding negative x (toFloat negative (min p infinity)) := by
  have hpattern : pattern (toFloat negative (min p infinity)) = min p infinity :=
    pattern_toFloat (min_le_right _ _)
  have hpos : 0 < infinity := by decide
  refine ⟨isNegative_toFloat (min_le_right _ _), fun hfinite => ?_, ?_, ?_⟩
  · have hp : p < infinity := by rwa [← not_le, h.infinity_le_iff, not_le]
    rw [min_eq_left hp.le]
    exact h.isClosest hx hp negative
  · rw [hpattern, min_eq_right_iff, h.infinity_le_iff]
  · rw [hpattern, ← h.eq_zero_iff]
    omega

/-- A greater number never rounds to a smaller float. -/
theorem RoundsTo.toRat_mono (h : RoundsTo x p) (h' : RoundsTo y q) (hx : 0 ≤ x) (hy : 0 ≤ y)
    {negative negative' : Bool} (hle : signed negative x ≤ signed negative' y) :
    toRat (toFloat negative (min p infinity)) ≤ toRat (toFloat negative' (min q infinity)) := by
  rw [toRat_toFloat _ (min_le_right _ _), toRat_toFloat _ (min_le_right _ _)]
  have hmono : ∀ {x y : ℚ} {p q : Nat}, RoundsTo x p → RoundsTo y q → x ≤ y →
      magnitude (min p infinity) ≤ magnitude (min q infinity) := fun h h' hle =>
    strictMono_magnitude.monotone (min_le_min_right infinity (h.mono h' hle))
  have hp := magnitude_nonneg (min p infinity)
  have hq := magnitude_nonneg (min q infinity)
  simp only [signed] at hle ⊢
  cases negative with
  | false =>
    cases negative' with
    | false => exact hmono h h' hle
    | true =>
      -- both numbers are zero
      have hle : x ≤ -y := hle
      have hp : p = 0 := by
        by_contra hne
        linarith [h.pos hne]
      have hq : q = 0 := by
        by_contra hne
        linarith [h'.pos hne]
      rw [hp, hq, Nat.zero_min, magnitude_zero]
      exact neg_zero.ge
  | true =>
    cases negative' with
    | false => exact (neg_nonpos.mpr hp).trans hq
    | true => exact neg_le_neg (hmono h' h (neg_le_neg_iff.mp hle))

end InfixCalculator.Binary64
