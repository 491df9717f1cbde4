import InfixCalculator.Binary64.Basic
import Mathlib.Algebra.Order.Field.Basic
import Mathlib.Data.Rat.Cast.Order
import Mathlib.Order.Monotone.Basic
import Mathlib.Tactic.FieldSimp
import Mathlib.Tactic.Linarith
import Mathlib.Tactic.Ring

/-!
# Rounding to the nearest pattern

Values are counted in units of `2^-1074`. A number rounds to a pattern if it lies between the
midpoints to the two neighbours of the pattern; a midpoint itself belongs to the even one of its two
patterns.

* `units_add`: the value of a pattern that is given by a shift and a significand.
* `strictMono_units`: greater patterns have greater values.
* `IsNearest`: a number rounds to a pattern, `IsNearest.mono`: a greater number to no smaller one, and
  `IsNearest.unique`: to no other.
* `isRounded_roundDiv`, `IsRounded.isNearest`: a significand is rounded as the pattern is.
* `exists_isNearest`: the pattern of a quotient is the one that it rounds to.
-/

namespace InfixCalculator.Binary64

/-! ## Values of patterns -/

theorem leadingBit_eq : leadingBit = 2 ^ 52 := rfl

/-- The value of a pattern with the given shift and significand. A significand of one bit too much
stands for the next shift. -/
theorem units_add {shift significand : Nat} (hlow : shift = 0 ∨ leadingBit ≤ significand)
    (hhigh : significand ≤ 2 * leadingBit) :
    units (shift * leadingBit + significand) = significand * 2 ^ shift := by
  have hpos : 0 < leadingBit := by decide
  by_cases hsubnormal : significand < leadingBit
  · obtain rfl : shift = 0 := hlow.resolve_right (Nat.not_le.mpr hsubnormal)
    rw [Nat.zero_mul, Nat.zero_add, units, if_pos hsubnormal, Nat.pow_zero, Nat.mul_one]
  · obtain ⟨fraction, rfl⟩ := Nat.exists_eq_add_of_le (Nat.not_lt.mp hsubnormal)
    have hnot : ¬ shift * leadingBit + (leadingBit + fraction) < leadingBit := by omega
    rw [units, if_neg hnot, Nat.shiftLeft_eq]
    by_cases hcarry : fraction = leadingBit
    · have hpattern : shift * leadingBit + (leadingBit + fraction) = (shift + 2) * leadingBit := by
        rw [hcarry]
        ring
      rw [hpattern, Nat.mul_mod_left, Nat.mul_div_cancel _ hpos, hcarry, Nat.add_zero,
        Nat.add_sub_assoc (by decide), Nat.pow_succ]
      ring
    · have hfraction : fraction < leadingBit := by omega
      have hpattern : shift * leadingBit + (leadingBit + fraction) =
          fraction + (shift + 1) * leadingBit := by ring
      rw [hpattern, Nat.add_mul_mod_self_right, Nat.add_mul_div_right _ _ hpos,
        Nat.mod_eq_of_lt hfraction, Nat.div_eq_of_lt hfraction, Nat.zero_add, Nat.add_sub_cancel]

/-- Every pattern has a shift and a significand. -/
theorem exists_shift_significand (p : Nat) :
    ∃ shift significand, p = shift * leadingBit + significand ∧
      (shift = 0 ∨ leadingBit ≤ significand) ∧ significand < 2 * leadingBit := by
  have hpos : 0 < leadingBit := by decide
  by_cases hsubnormal : p < leadingBit
  · exact ⟨0, p, by omega, .inl rfl, by omega⟩
  · have hquotient : 1 ≤ p / leadingBit := (Nat.one_le_div_iff hpos).mpr (Nat.not_lt.mp hsubnormal)
    obtain ⟨shift, hshift⟩ := Nat.exists_eq_add_of_le' hquotient
    have hmod := Nat.mod_lt p hpos
    have hdiv := Nat.div_add_mod p leadingBit
    refine ⟨shift, leadingBit + p % leadingBit, ?_, .inr (Nat.le_add_right _ _), by omega⟩
    rw [hshift] at hdiv
    calc
      p = leadingBit * (shift + 1) + p % leadingBit := hdiv.symm
      _ = shift * leadingBit + (leadingBit + p % leadingBit) := by ring

theorem units_lt_units_succ (p : Nat) : units p < units (p + 1) := by
  obtain ⟨shift, significand, rfl, hlow, hhigh⟩ := exists_shift_significand p
  have hlow' : shift = 0 ∨ leadingBit ≤ significand + 1 := hlow.imp_right (by omega)
  rw [units_add hlow hhigh.le, Nat.add_assoc, units_add hlow' hhigh]
  exact Nat.mul_lt_mul_of_pos_right (Nat.lt_succ_self _) (Nat.two_pow_pos shift)

theorem strictMono_units : StrictMono units := strictMono_nat_of_lt_succ units_lt_units_succ

/-! ## Nearest patterns -/

/-- Halfway between the value of a pattern and that of the next one. -/
def midpoint (p : Nat) : ℚ := (units p + units (p + 1)) / 2

/-- The number, counted in units of `2^-1074`, rounds to the pattern: it lies between the midpoints
on both sides, or on one of them if the pattern is even. -/
structure IsNearest (x : ℚ) (p : Nat) : Prop where
  lower : ∀ q, q + 1 = p → midpoint q < x ∨ midpoint q = x ∧ Even p
  upper : x < midpoint p ∨ x = midpoint p ∧ Even p

theorem units_lt_midpoint (p : Nat) : (units p : ℚ) < midpoint p := by
  have h : (units p : ℚ) < units (p + 1) := by exact_mod_cast units_lt_units_succ p
  rw [midpoint]
  linarith

theorem midpoint_lt_units (p : Nat) : midpoint p < units (p + 1) := by
  have h : (units p : ℚ) < units (p + 1) := by exact_mod_cast units_lt_units_succ p
  rw [midpoint]
  linarith

theorem strictMono_midpoint : StrictMono midpoint := by
  refine strictMono_nat_of_lt_succ fun p => ?_
  exact (midpoint_lt_units p).trans (units_lt_midpoint (p + 1))

theorem cast_units_add {shift significand : Nat} (hlow : shift = 0 ∨ leadingBit ≤ significand)
    (hhigh : significand ≤ 2 * leadingBit) :
    (units (shift * leadingBit + significand) : ℚ) = significand * 2 ^ shift := by
  rw [units_add hlow hhigh]
  push_cast
  rfl

theorem midpoint_add {shift significand : Nat} (hlow : shift = 0 ∨ leadingBit ≤ significand)
    (hhigh : significand < 2 * leadingBit) :
    midpoint (shift * leadingBit + significand) = (significand + 1 / 2) * 2 ^ shift := by
  have hnext : shift = 0 ∨ leadingBit ≤ significand + 1 := hlow.imp_right (by omega)
  rw [midpoint, Nat.add_assoc, cast_units_add hlow hhigh.le, cast_units_add hnext hhigh]
  push_cast
  ring

/-- A greater number never rounds to a smaller pattern. -/
theorem IsNearest.mono {x x' : ℚ} {p p' : Nat} (h : IsNearest x p) (h' : IsNearest x' p')
    (hle : x ≤ x') : p ≤ p' := by
  by_contra hlt
  obtain ⟨q, rfl⟩ := Nat.exists_eq_add_of_le' (Nat.one_le_of_lt (Nat.not_le.mp hlt))
  have hmono : midpoint p' ≤ midpoint q := strictMono_midpoint.monotone (by omega)
  rcases h.lower q rfl with hlower | ⟨hlower, heven⟩
  · rcases h'.upper with hupper | ⟨hupper, -⟩ <;> linarith
  · rcases h'.upper with hupper | ⟨hupper, heven'⟩
    · linarith
    · -- both numbers lie halfway between two neighbours, of which only one is even
      obtain rfl : p' = q := strictMono_midpoint.injective (by linarith)
      exact absurd heven' (Nat.even_add_one.mp heven)

/-- A number rounds to one pattern only. -/
theorem IsNearest.unique {x : ℚ} {p p' : Nat} (h : IsNearest x p) (h' : IsNearest x p') :
    p = p' := le_antisymm (h.mono h' le_rfl) (h'.mono h le_rfl)

/-- The value of a pattern rounds to it, and so does any number a little below. -/
theorem isNearest_of_near {x : ℚ} {p : Nat} (hle : x ≤ units p) (hlt : units p < x + 1 / 2) :
    IsNearest x p := by
  constructor
  · rintro q rfl
    have h : (units q : ℚ) + 1 ≤ units (q + 1) := by exact_mod_cast units_lt_units_succ q
    left
    rw [midpoint]
    linarith
  · exact .inl (hle.trans_lt (units_lt_midpoint p))

/-! ## Quotients -/

/-- The number rounds to the natural number: they are at most one half apart, and one half only if
the latter is even. -/
structure IsRounded (x : ℚ) (n : Nat) : Prop where
  upper : x < n + 1 / 2 ∨ x = n + 1 / 2 ∧ Even n
  lower : n < x + 1 / 2 ∨ n = x + 1 / 2 ∧ Even n

theorem IsRounded.le_add_half {x : ℚ} {n : Nat} (h : IsRounded x n) : x ≤ n + 1 / 2 :=
  h.upper.elim le_of_lt fun heq => heq.1.le

theorem IsRounded.ge_sub_half {x : ℚ} {n : Nat} (h : IsRounded x n) : (n : ℚ) ≤ x + 1 / 2 :=
  h.lower.elim le_of_lt fun heq => heq.1.le

theorem isRounded_roundDiv (num : Nat) {den : Nat} (hden : 0 < den) :
    IsRounded (num / den) (roundDiv num den) := by
  have hden' : (0 : ℚ) < den := by exact_mod_cast hden
  have hquotient : (num : ℚ) / den = (num / den : Nat) + (num % den : Nat) / (den : ℚ) := by
    have h : ((den * (num / den) + num % den : Nat) : ℚ) = num := by rw [Nat.div_add_mod]
    push_cast at h
    field_simp
    linarith
  have hrest : (0 : ℚ) ≤ (num % den : Nat) / (den : ℚ) := by positivity
  have hrest' : ((num % den : Nat) : ℚ) / den < 1 := by
    rw [div_lt_one hden']
    exact_mod_cast Nat.mod_lt num hden
  have hnext := Nat.cast_add_one (R := ℚ) (num / den)
  unfold roundDiv
  dsimp only
  split
  · next hlow =>
    have hlow' : ((num % den : Nat) : ℚ) / den < 1 / 2 := by
      rw [div_lt_iff₀ hden']
      have : (2 : ℚ) * (num % den : Nat) < den := by exact_mod_cast hlow
      linarith
    exact ⟨.inl (by linarith), .inl (by linarith)⟩
  · split
    · next hhigh =>
      have hhigh' : 1 / 2 < ((num % den : Nat) : ℚ) / den := by
        rw [lt_div_iff₀ hden']
        have : (den : ℚ) < 2 * (num % den : Nat) := by exact_mod_cast hhigh
        linarith
      exact ⟨.inl (by linarith), .inl (by linarith)⟩
    · next hlow hhigh =>
      have hhalf : ((num % den : Nat) : ℚ) / den = 1 / 2 := by
        rw [div_eq_iff hden'.ne']
        have : (2 : ℚ) * (num % den : Nat) = den := by exact_mod_cast (by omega)
        linarith
      rcases Nat.even_or_odd (num / den) with heven | hodd
      · rw [Nat.even_iff.mp heven, Nat.add_zero]
        exact ⟨.inr ⟨by linarith, heven⟩, .inl (by linarith)⟩
      · rw [Nat.odd_iff.mp hodd]
        exact ⟨.inl (by linarith), .inr ⟨by linarith, hodd.add_one⟩⟩

section

variable {y : ℚ} {shift significand : Nat}

theorem even_add (h : Even significand) : Even (shift * leadingBit + significand) :=
  ((by decide : Even leadingBit).mul_left shift).add h

/-- A number that rounds to a significand, both counted in units of a shift, is not below the
midpoint under the pattern of the two. -/
theorem IsRounded.isNearest_lower (h : IsRounded y significand)
    (hlow : shift = 0 ∨ (leadingBit : ℚ) ≤ y) (hleast : shift = 0 ∨ leadingBit ≤ significand)
    (hmost : significand ≤ 2 * leadingBit) {q : Nat}
    (hq : q + 1 = shift * leadingBit + significand) :
    midpoint q < y * 2 ^ shift ∨
      midpoint q = y * 2 ^ shift ∧ Even (shift * leadingBit + significand) := by
  have hscale : (0 : ℚ) < 2 ^ shift := by positivity
  by_cases hfirst : shift ≠ 0 ∧ significand = leadingBit
  · -- the pattern below has a smaller shift, and the number is not even below this one
    left
    have hle : (units (shift * leadingBit + significand) : ℚ) ≤ y * 2 ^ shift := by
      rw [cast_units_add hleast hmost, hfirst.2]
      exact mul_le_mul_of_nonneg_right (hlow.resolve_left hfirst.1) hscale.le
    rw [← hq] at hle
    exact (midpoint_lt_units q).trans_le hle
  · obtain ⟨below, rfl⟩ : ∃ below, significand = below + 1 := by
      refine Nat.exists_eq_add_one_of_ne_zero ?_
      rintro rfl
      rcases hleast with rfl | hle
      · omega
      · exact absurd hle (by decide)
    have hbelow : shift = 0 ∨ leadingBit ≤ below := by omega
    obtain rfl : q = shift * leadingBit + below := by omega
    rw [midpoint_add hbelow hmost]
    have hlower := h.lower
    push_cast at hlower
    refine hlower.imp (fun h => ?_) fun h => ⟨?_, even_add h.2⟩
    · exact mul_lt_mul_of_pos_right (by linarith) hscale
    · rw [show y = below + 1 / 2 by linarith [h.1]]

/-- Neither is it above the midpoint over this pattern. -/
theorem IsRounded.isNearest_upper (h : IsRounded y significand)
    (hhigh : y < 2 * leadingBit) (hleast : shift = 0 ∨ leadingBit ≤ significand)
    (hmost : significand ≤ 2 * leadingBit) :
    y * 2 ^ shift < midpoint (shift * leadingBit + significand) ∨
      y * 2 ^ shift = midpoint (shift * leadingBit + significand) ∧
        Even (shift * leadingBit + significand) := by
  have hscale : (0 : ℚ) < 2 ^ shift := by positivity
  rcases hmost.eq_or_lt with hlast | hmost
  · left
    have hlt : y * 2 ^ shift < units (shift * leadingBit + significand) := by
      rw [cast_units_add hleast hlast.le, hlast]
      push_cast
      exact mul_lt_mul_of_pos_right hhigh hscale
    exact hlt.trans (units_lt_midpoint _)
  · rw [midpoint_add hleast hmost]
    refine h.upper.imp (fun h => ?_) fun h => ⟨?_, even_add h.2⟩
    · exact mul_lt_mul_of_pos_right h hscale
    · rw [h.1]

/-- A number that rounds to a significand, both counted in units of a shift, rounds to the pattern
of the two, if it has just as many bits as the shift allows. -/
theorem IsRounded.isNearest (h : IsRounded y significand)
    (hlow : shift = 0 ∨ (leadingBit : ℚ) ≤ y) (hhigh : y < 2 * leadingBit) :
    IsNearest (y * 2 ^ shift) (shift * leadingBit + significand) := by
  have hupper := h.le_add_half
  have hlower := h.ge_sub_half
  have hmost : significand ≤ 2 * leadingBit := by
    have hlt : (significand : ℚ) < (2 * leadingBit + 1 : Nat) := by
      push_cast
      linarith
    exact Nat.le_of_lt_succ (by exact_mod_cast hlt)
  have hleast : shift = 0 ∨ leadingBit ≤ significand := by
    refine hlow.imp_right fun hy => ?_
    have hlt : (leadingBit : ℚ) < (significand + 1 : Nat) := by
      push_cast
      linarith
    exact Nat.le_of_lt_succ (by exact_mod_cast hlt)
  exact ⟨fun q hq => h.isNearest_lower hlow hleast hmost hq, h.isNearest_upper hhigh hleast hmost⟩

end

/-- Without its excess bits, a number is below the bound of a significand, and has a leading bit if
any bits were left out. -/
theorem bounds_excessBits (n : Nat) :
    (excessBits n = 0 ∨ leadingBit * 2 ^ excessBits n ≤ n) ∧
      n < 2 * leadingBit * 2 ^ excessBits n := by
  rw [leadingBit_eq]
  by_cases hn : n = 0
  · subst hn
    exact ⟨.inl rfl, by decide⟩
  · have hle := Nat.log2_self_le hn
    have hlt := Nat.lt_log2_self (n := n)
    unfold excessBits
    constructor
    · by_cases hbits : n.log2 ≤ 52
      · exact .inl (by omega)
      · right
        rwa [← Nat.pow_add, Nat.add_sub_cancel' (by omega)]
    · have hpow : 2 * 2 ^ 52 * 2 ^ (n.log2 - 52) = 2 ^ (53 + (n.log2 - 52)) := by
        rw [Nat.pow_add, ← Nat.pow_succ']
      rw [hpow]
      exact hlt.trans_le (Nat.pow_le_pow_right (by decide) (by omega))

theorem cast_shiftLeft (n shift : Nat) : ((n <<< shift : Nat) : ℚ) = n * 2 ^ shift := by
  rw [Nat.shiftLeft_eq]
  push_cast
  rfl

/-- A quotient rounds to the pattern that keeps its leading 53 bits, the last one rounded. -/
theorem isNearest_div (units : Nat) {den : Nat} (hden : 0 < den) :
    IsNearest (units / den) (excessBits (units / den) * leadingBit +
      roundDiv units (den <<< excessBits (units / den))) := by
  obtain ⟨hlow, hhigh⟩ := bounds_excessBits (units / den)
  rw [Nat.le_div_iff_mul_le hden] at hlow
  rw [Nat.div_lt_iff_lt_mul hden] at hhigh
  generalize excessBits (units / den) = shift at *
  have hshifted : 0 < den <<< shift := by
    rw [Nat.shiftLeft_eq]
    exact Nat.mul_pos hden (Nat.two_pow_pos shift)
  have hshifted' : (0 : ℚ) < (den <<< shift : Nat) := by exact_mod_cast hshifted
  have hleast : shift = 0 ∨ (leadingBit : ℚ) ≤ units / (den <<< shift : Nat) := by
    refine hlow.imp_right fun h => ?_
    rw [le_div_iff₀ hshifted', cast_shiftLeft]
    have h' : ((leadingBit * 2 ^ shift * den : Nat) : ℚ) ≤ units := by exact_mod_cast h
    push_cast at h'
    linarith
  have hmost : (units : ℚ) / (den <<< shift : Nat) < 2 * leadingBit := by
    rw [div_lt_iff₀ hshifted', cast_shiftLeft]
    have h' : (units : ℚ) < (2 * leadingBit * 2 ^ shift * den : Nat) := by exact_mod_cast hhigh
    push_cast at h'
    linarith
  have hvalue : (units : ℚ) / (den <<< shift : Nat) * 2 ^ shift = units / den := by
    rw [cast_shiftLeft]
    field_simp
  rw [← hvalue]
  exact (isRounded_roundDiv units hshifted).isNearest hleast hmost

/-- A quotient has the pattern that it rounds to, but infinity from there on. -/
theorem exists_isNearest (num : Nat) {den : Nat} (hden : 0 < den) :
    ∃ p, IsNearest (num * 2 ^ 1074 / den) p ∧ ofRatio num den = min p infinity := by
  have hnearest := isNearest_div (num <<< 1074) hden
  rw [cast_shiftLeft] at hnearest
  exact ⟨_, hnearest, rfl⟩

/-- A quotient that rounds to a finite pattern has this pattern. -/
theorem ofRatio_eq {num den p : Nat} (hden : 0 < den) (hp : p < infinity)
    (h : IsNearest (num * 2 ^ 1074 / den) p) : ofRatio num den = p := by
  obtain ⟨p', hp', heq⟩ := exists_isNearest num hden
  rw [heq, hp'.unique h, min_eq_left hp.le]

/-- Equal quotients have the same pattern. -/
theorem ofRatio_congr {num den num' den' : Nat} (hden : 0 < den) (hden' : 0 < den')
    (h : (num : ℚ) / den = num' / den') : ofRatio num den = ofRatio num' den' := by
  obtain ⟨p, hp, heq⟩ := exists_isNearest num hden
  obtain ⟨p', hp', heq'⟩ := exists_isNearest num' hden'
  rw [mul_div_right_comm, h, ← mul_div_right_comm] at hp
  rw [heq, heq', hp.unique hp']

end InfixCalculator.Binary64
