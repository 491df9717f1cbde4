import InfixCalculator.Proofs.Binary64.Rounding

/-!
# The interval of a pattern

The numbers that round to a pattern are an interval around the value of the pattern. The interval is
never narrow: it is wider than the value divided by `10 ^ 16`, also at a power of two, where the
values below lie twice as close as those above.

* `magnitude`, `RoundsTo`: the value of a pattern, and the numbers that round to it.
* `RoundsTo.mono`, `RoundsTo.convex`: a greater number rounds to no smaller pattern, and a number
  between two that round to a pattern rounds to it.
* `lt_width`: how wide the interval is.
* `roundsTo_or_roundsTo`: of two numbers closely around a value at least one rounds to its pattern.
-/

namespace InfixCalculator.Binary64

/-- The value of a finite pattern. -/
def magnitude (p : Nat) : ℚ := units p / 2 ^ 1074

/-- The number rounds to the pattern, a tie going to the even one. -/
def RoundsTo (x : ℚ) (p : Nat) : Prop := IsNearest (x * 2 ^ 1074) p

variable {x y z : ℚ} {p p' : Nat}

theorem magnitude_mul (p : Nat) : magnitude p * 2 ^ 1074 = units p :=
  div_mul_cancel₀ _ (pow_ne_zero _ two_ne_zero)

theorem strictMono_magnitude : StrictMono magnitude := by
  intro p p' h
  have hunits : (units p : ℚ) < units p' := by exact_mod_cast strictMono_units h
  exact div_lt_div_of_pos_right hunits (by positivity)

theorem magnitude_zero : magnitude 0 = 0 := by simp [magnitude, units, leadingBit]

/-- The value of a pattern rounds to it. -/
theorem roundsTo_magnitude (p : Nat) : RoundsTo (magnitude p) p := by
  rw [RoundsTo, magnitude_mul]
  exact isNearest_of_near le_rfl (by linarith)

theorem RoundsTo.mono (h : RoundsTo x p) (h' : RoundsTo y p') (hle : x ≤ y) : p ≤ p' :=
  IsNearest.mono h h' (mul_le_mul_of_nonneg_right hle (by positivity))

/-- Zero rounds to the pattern zero only. -/
theorem RoundsTo.pos (h : RoundsTo x p) (hp : p ≠ 0) : 0 < x := by
  by_contra hx
  have hle : x ≤ magnitude 0 := (not_lt.mp hx).trans_eq magnitude_zero.symm
  exact hp (Nat.le_zero.mp (h.mono (roundsTo_magnitude 0) hle))

/-- A number between two that round to a pattern rounds to it. -/
theorem RoundsTo.convex (hx : RoundsTo x p) (hz : RoundsTo z p) (hxy : x ≤ y) (hyz : y ≤ z) :
    RoundsTo y p := by
  have hscale : (0 : ℚ) ≤ 2 ^ 1074 := by positivity
  have hlow := mul_le_mul_of_nonneg_right hxy hscale
  have hhigh := mul_le_mul_of_nonneg_right hyz hscale
  constructor
  · intro q hq
    rcases hx.lower q hq with h | ⟨h, heven⟩
    · exact .inl (h.trans_le hlow)
    · exact hlow.lt_or_eq.imp (h.trans_lt ·) fun heq => ⟨h.trans heq, heven⟩
  · rcases hz.upper with h | ⟨h, heven⟩
    · exact .inl (hhigh.trans_lt h)
    · exact hhigh.lt_or_eq.imp (·.trans_eq h) fun heq => ⟨heq.trans h, heven⟩

/-- A number between a value and a number that rounds to its pattern rounds to it as well, and is
closer. -/
theorem RoundsTo.between (h : RoundsTo x p)
    (hy : x ≤ y ∧ y ≤ magnitude p ∨ magnitude p ≤ y ∧ y ≤ x) :
    RoundsTo y p ∧ |y - magnitude p| ≤ |x - magnitude p| := by
  have hvalue := roundsTo_magnitude p
  rcases hy with ⟨hxy, hyp⟩ | ⟨hpy, hyx⟩
  · refine ⟨h.convex hvalue hxy hyp, ?_⟩
    rw [abs_of_nonpos (by linarith), abs_of_nonpos (by linarith)]
    linarith
  · refine ⟨hvalue.convex h hpy hyx, ?_⟩
    rw [abs_of_nonneg (by linarith), abs_of_nonneg (by linarith)]
    linarith

/-! ## The width of the interval -/

/-- The midpoints around a value are further apart than a small part of the value. -/
theorem lt_width (q : Nat) : (units (q + 1) : ℚ) < 10 ^ 16 * (midpoint (q + 1) - midpoint q) := by
  obtain ⟨shift, significand, rfl, hlow, hhigh⟩ := exists_shift_significand q
  have hscale : (0 : ℚ) < 2 ^ shift := by positivity
  have hnext : shift = 0 ∨ leadingBit ≤ significand + 1 := hlow.imp_right (by omega)
  have hleading : (leadingBit : ℚ) = 4503599627370496 := by norm_num [leadingBit]
  rw [midpoint_add hlow hhigh, Nat.add_assoc, cast_units_add hnext hhigh]
  rcases Nat.lt_or_ge (significand + 1) (2 * leadingBit) with hlt | hge
  · have hbound : ((significand + 1 : Nat) : ℚ) < 2 * leadingBit := by exact_mod_cast hlt
    rw [midpoint_add hnext hlt]
    calc
      ((significand + 1 : Nat) : ℚ) * 2 ^ shift < 10 ^ 16 * 2 ^ shift :=
        mul_lt_mul_of_pos_right (by linarith) hscale
      _ = 10 ^ 16 * (((significand + 1 : Nat) + 1 / 2) * 2 ^ shift -
          (significand + 1 / 2) * 2 ^ shift) := by
        push_cast
        ring
  · -- a power of two: the values above it lie twice as far apart as those below
    have hlast : significand + 1 = 2 * leadingBit := by omega
    have hlast' : (significand : ℚ) + 1 = 2 * leadingBit := by exact_mod_cast hlast
    have hpattern : shift * leadingBit + (significand + 1) =
        (shift + 1) * leadingBit + leadingBit := by
      rw [hlast]
      ring
    have hpos : 0 < leadingBit := by decide
    rw [hpattern, midpoint_add (.inr le_rfl) (by omega), hlast, pow_succ (2 : ℚ)]
    push_cast
    calc
      (2 * leadingBit : ℚ) * 2 ^ shift < 10 ^ 16 * (3 / 2) * 2 ^ shift :=
        mul_lt_mul_of_pos_right (by linarith) hscale
      _ = 10 ^ 16 * ((leadingBit + 1 / 2) * (2 ^ shift * 2) -
          (2 * leadingBit - 1 + 1 / 2) * 2 ^ shift) := by ring
      _ = 10 ^ 16 * ((leadingBit + 1 / 2) * (2 ^ shift * 2) -
          (significand + 1 / 2) * 2 ^ shift) := by rw [← hlast', add_sub_cancel_right]

/-- Of two numbers on both sides of a value, closer to each other than the interval is wide, at
least one rounds to the pattern. -/
theorem roundsTo_or_roundsTo (hp : p ≠ 0) (hlow : x ≤ magnitude p) (hhigh : magnitude p < y)
    (hclose : 10 ^ 16 * (y - x) ≤ magnitude p) : RoundsTo x p ∨ RoundsTo y p := by
  obtain ⟨q, rfl⟩ := Nat.exists_eq_add_one_of_ne_zero hp
  have hscale : (0 : ℚ) < 2 ^ 1074 := by positivity
  have hlow' := mul_le_mul_of_nonneg_right hlow hscale.le
  have hhigh' := mul_lt_mul_of_pos_right hhigh hscale
  have hclose' := mul_le_mul_of_nonneg_right hclose hscale.le
  rw [magnitude_mul] at hlow' hhigh' hclose'
  unfold RoundsTo
  generalize (2 : ℚ) ^ 1074 = scale at *
  have hwidth := lt_width q
  have hmidpoint := units_lt_midpoint (q + 1)
  have hmidpoint' := midpoint_lt_units q
  by_cases hx : midpoint q < x * scale
  · refine .inl ⟨?_, .inl (hlow'.trans_lt hmidpoint)⟩
    rintro q' hq
    obtain rfl : q' = q := by omega
    exact .inl hx
  · have hy : y * scale < midpoint (q + 1) := by
      by_contra hy
      linarith
    refine .inr ⟨?_, .inl hy⟩
    rintro q' hq
    obtain rfl : q' = q := by omega
    exact .inl (hmidpoint'.trans hhigh')

end InfixCalculator.Binary64
