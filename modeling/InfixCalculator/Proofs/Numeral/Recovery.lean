import InfixCalculator.Binary64.Bits
import InfixCalculator.Proofs.Decimal.Faithful
import InfixCalculator.Proofs.Numeral.Plain

/-!
# Written values are read back

The text of a value is a numeral, and its value is the one that was written: both forms of a decimal
are read as the number that it denotes, and the shortest decimal of a pattern rounds to the pattern.

* `exists_positional_eq`: the positional form is digits around a point.
* `decimal?_scientific`: the form with an exponent is read back as it is.
* `exists_decimal?_write`: either form is read as the number that the decimal denotes.
* `read?_write`: reading inverts writing.
-/

namespace InfixCalculator.Numeral

open Token (IsDigits IsPlainNumber)

/-! ## Decimals -/

theorem isDigits_digitChars (d : Decimal) : IsDigits d.digitChars :=
  ⟨Nat.toDigits_ne_nil, isDigit_of_mem_toDigits⟩

theorem ofDigitChars_digitChars (d : Decimal) : Nat.ofDigitChars 10 d.digitChars 0 = d.digits :=
  Nat.ofDigitChars_ten_toDigits

theorem isDigit_of_mem_zeros {n : Nat} : ∀ c ∈ List.replicate n '0', c.isDigit := by
  intro c hc
  rw [List.eq_of_mem_replicate hc]
  decide

/-- The positional form has at least one digit on each side of a point, and denotes the number. -/
theorem exists_positional_eq (d : Decimal) :
    ∃ ds fs, positional d = ds ++ '.' :: fs ∧ IsDigits ds ∧ IsDigits fs ∧
      Decimal.toRat ⟨Nat.ofDigitChars 10 (ds ++ fs) 0, -fs.length⟩ = d.toRat := by
  obtain ⟨hne, hdigits⟩ := isDigits_digitChars d
  have hvalue := ofDigitChars_digitChars d
  have hpositive := List.length_pos_iff.mpr hne
  unfold positional
  dsimp only
  split
  · next hexponent =>
    obtain ⟨zeros, hzeros⟩ := Int.eq_ofNat_of_zero_le hexponent
    rw [hzeros, Int.toNat_natCast]
    refine ⟨d.digitChars ++ List.replicate zeros '0', ['0'], rfl, ⟨by simp [hne], ?_⟩,
      by decide, ?_⟩
    · exact List.forall_mem_append.mpr ⟨hdigits, isDigit_of_mem_zeros⟩
    · -- the zero after the point is one more trailing zero
      rw [List.append_assoc, ← List.replicate_succ', Nat.ofDigitChars_append, hvalue,
        Nat.ofDigitChars_replicate_zero, Nat.mul_comm]
      have hshift := Decimal.toRat_mul_pow d.digits (zeros + 1) zeros
      have hexponent' : (zeros : Int) - ((zeros + 1 : Nat) : Int) = -(['0'].length : Int) := by
        simp
      rw [hexponent', ← hzeros] at hshift
      exact hshift
  · next hexponent =>
    have hsame : ∀ ds fs : List Char, Nat.ofDigitChars 10 (ds ++ fs) 0 = d.digits →
        fs.length = d.exponent.natAbs →
        Decimal.toRat ⟨Nat.ofDigitChars 10 (ds ++ fs) 0, -fs.length⟩ = d.toRat := by
      intro ds fs hdigits hlength
      rw [hdigits, hlength]
      exact congrArg (fun e => Decimal.toRat ⟨d.digits, e⟩) (by omega)
    split
    · next hplaces =>
      refine ⟨_, _, rfl, ⟨?_, fun c hc => hdigits c (List.mem_of_mem_take hc)⟩,
        ⟨?_, fun c hc => hdigits c (List.mem_of_mem_drop hc)⟩, hsame _ _ ?_ ?_⟩
      · rw [← List.length_pos_iff, List.length_take]
        omega
      · rw [← List.length_pos_iff, List.length_drop]
        omega
      · rw [List.take_append_drop, hvalue]
      · rw [List.length_drop]
        omega
    · next hplaces =>
      refine ⟨['0'], List.replicate (d.exponent.natAbs - d.digitChars.length) '0' ++ d.digitChars,
        rfl, by decide, ⟨by simp [hne], ?_⟩, hsame _ _ ?_ ?_⟩
      · exact List.forall_mem_append.mpr ⟨isDigit_of_mem_zeros, hdigits⟩
      · rw [Nat.ofDigitChars_append, Nat.ofDigitChars_append, Nat.ofDigitChars_replicate_zero]
        exact hvalue
      · rw [List.length_append, List.length_replicate]
        omega

theorem isPlainNumber_positional (d : Decimal) : IsPlainNumber (positional d) := by
  obtain ⟨ds, fs, heq, hds, hfs, -⟩ := exists_positional_eq d
  exact heq ▸ .fractional hds hfs

theorem exists_decimal?_positional (d : Decimal) :
    ∃ d', decimal? (positional d) = some d' ∧ d'.toRat = d.toRat := by
  obtain ⟨ds, fs, heq, hds, hfs, hvalue⟩ := exists_positional_eq d
  have hend : Misses Char.isDigit [] := nofun
  have hread := decimal?_point hds.2 hfs.2 (by simp [hds.1]) hend
  rw [List.append_nil, ← heq] at hread
  refine ⟨_, hread, ?_⟩
  dsimp only
  rw [Int.zero_sub]
  exact hvalue

/-- The form with an exponent is read back as it is, if the exponent is not too large. -/
theorem decimal?_scientific {d : Decimal} (h : d.leadingExponent.natAbs < 65536) :
    decimal? (scientific d) = some d := by
  obtain ⟨hne, hdigits⟩ := isDigits_digitChars d
  have hvalue := ofDigitChars_digitChars d
  have hexponent := exponent?_intChars h
  have hletter : Misses Char.isDigit ('e' :: intChars d.leadingExponent) := by
    intro c hc
    cases hc
    decide
  have hleading : d.leadingExponent = d.exponent + d.digitChars.length - 1 := rfl
  unfold scientific
  dsimp only
  split
  · next first second rest hcons =>
    rw [hcons] at hdigits hvalue hleading
    rw [List.forall_mem_cons] at hdigits
    have hread := decimal?_point (List.forall_mem_singleton.mpr hdigits.1) hdigits.2
      (List.cons_ne_nil _ _) hletter
    rw [hexponent] at hread
    refine hread.trans (congrArg some ?_)
    have hback : d.leadingExponent - (second :: rest).length = d.exponent := by
      rw [hleading]
      simp only [List.length_cons]
      omega
    dsimp only
    rw [hback]
    exact congrArg (fun digits => Decimal.mk digits d.exponent) hvalue
  · next hnot =>
    -- a lone digit
    obtain ⟨c, cs, hcons⟩ := List.exists_cons_of_ne_nil hne
    cases cs with
    | cons second rest => exact absurd hcons (hnot c second rest)
    | nil =>
      have hread := decimal?_integral hdigits hne hletter nofun
      rw [hexponent, hvalue] at hread
      refine hread.trans (congrArg some ?_)
      have hback : d.leadingExponent = d.exponent := by
        rw [hleading, hcons]
        simp
      exact congrArg (Decimal.mk d.digits) hback

/-- A written decimal is read as the number that it denotes. -/
theorem exists_decimal?_write (layout : Layout) {d : Decimal}
    (h : d.leadingExponent.natAbs < 65536) :
    ∃ d', decimal? (layout.write d) = some d' ∧ d'.toRat = d.toRat := by
  unfold Layout.write
  split
  · exact exists_decimal?_positional d
  · exact ⟨d, decimal?_scientific h, rfl⟩

/-- A written decimal starts with a digit. -/
theorem exists_write_eq_cons (layout : Layout) (d : Decimal) :
    ∃ c cs, layout.write d = c :: cs ∧ c.isDigit := by
  unfold Layout.write
  split
  · exact IsPlainNumber.head (isPlainNumber_positional d)
  · obtain ⟨hne, hdigits⟩ := isDigits_digitChars d
    obtain ⟨c, cs, hcons⟩ := List.exists_cons_of_ne_nil hne
    have hc : c.isDigit := hdigits c (hcons ▸ List.mem_cons_self)
    unfold scientific
    dsimp only
    rw [hcons]
    cases cs with
    | nil => exact ⟨c, _, rfl, hc⟩
    | cons second rest => exact ⟨c, _, rfl, hc⟩

/-! ## Patterns -/

/-- A written pattern starts with a digit or is the name of a value that no decimal denotes. -/
theorem sign_writePattern (pattern : Nat) :
    sign (writePattern pattern) = (false, writePattern pattern) := by
  unfold writePattern
  split
  · rfl
  · split
    · obtain ⟨c, cs, hcons, hc⟩ := exists_write_eq_cons layout (Decimal.shortest pattern)
      rw [hcons, sign_of_isDigit hc]
    · split
      · rfl
      · rfl

/-- A written pattern is read back, and so is the one pattern of a NaN. -/
theorem exists_magnitude?_writePattern {pattern : Nat}
    (h : pattern ≤ Binary64.infinity ∨ pattern = Binary64.quietNaN) :
    ∃ m, magnitude? (writePattern pattern) = some m ∧ m.pattern = pattern := by
  unfold writePattern
  split
  · next hzero =>
    subst hzero
    exact ⟨.decimal ⟨0, -1⟩, rfl, by decide +kernel⟩
  · split
    · next hfinite =>
      obtain ⟨c, cs, hcons, hc⟩ := exists_write_eq_cons layout (Decimal.shortest pattern)
      obtain ⟨d, hread, hvalue⟩ :=
        exists_decimal?_write layout (Decimal.natAbs_leadingExponent_shortest_lt hfinite)
      refine ⟨.decimal d, ?_, (Decimal.nearest_congr hvalue).trans (Decimal.nearest_shortest hfinite)⟩
      rw [hcons] at hread ⊢
      rw [magnitude?_of_isDigit hc, hread]
      rfl
    · split
      · next hinfinite => exact ⟨.infinite, rfl, hinfinite.symm⟩
      · next hnotInfinite =>
        have hnan : pattern = Binary64.quietNaN := h.resolve_left (by omega)
        exact ⟨.notANumber, rfl, hnan.symm⟩

/-! ## Values -/

/-- The text of a value is a numeral with this value. -/
theorem read?_write (x : Float) : read? (write x) = some x := by
  have hsame := Binary64.toFloat_isNegative_pattern x
  have hpattern : Binary64.pattern x ≤ Binary64.infinity ∨
      Binary64.pattern x = Binary64.quietNaN := by
    refine (Binary64.pattern_le_or_eq x).imp_right fun hbits => ?_
    rw [Binary64.pattern, hbits]
    decide
  obtain ⟨m, hread, hm⟩ := exists_magnitude?_writePattern hpattern
  have hsign := sign_writePattern (Binary64.pattern x)
  unfold read? write
  dsimp only
  rw [String.toList_ofList]
  split
  · next hnegative =>
    have hminus : parse? ('-' :: writePattern (Binary64.pattern x)) = some ⟨true, m⟩ := by
      simp only [parse?, sign, hread, Option.map_some]
    rw [hminus, Option.map_some, value, hm, ← hnegative.1, hsame]
  · next hpositive =>
    have hplain : parse? (writePattern (Binary64.pattern x)) = some ⟨false, m⟩ := by
      simp only [parse?, hsign, hread, Option.map_some]
    have hfalse : Binary64.isNegative x = false := by
      by_contra htrue
      rw [Bool.not_eq_false] at htrue
      -- the one NaN has no sign
      have hnan : ¬ Binary64.pattern x ≤ Binary64.infinity := fun hle => hpositive ⟨htrue, hle⟩
      have hbits := (Binary64.pattern_le_or_eq x).resolve_left hnan
      rw [Binary64.isNegative, hbits] at htrue
      exact absurd htrue (by decide)
    rw [hplain, Option.map_some, value, hm, ← hfalse, hsame]

end InfixCalculator.Numeral
