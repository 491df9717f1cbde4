import InfixCalculator.Proofs.Decimal.Optimal
import InfixCalculator.Proofs.Numeral.Recovery

/-!
# The notation of values

A finite value other than zero is written as a shortest decimal. If it is at least a ten-thousandth
and less than ten to the sixteenth, its digits stand around a point with at least one on each side;
otherwise the text has an exponent. Neither notation has a needless sign, zero or point.

* `IsPlain`, `IsScientific`: the two notations of a decimal.
* `isPlain_positional`, `isScientific_scientific`: the written forms have these notations.
* `layout_iff`: the values for which a shortest decimal is laid out in plain notation.
* `write_shortest`: the decimal that is written for a value, and its notation.
-/

namespace InfixCalculator.Numeral

open Token (IsDigits)

variable {d : Decimal} {text : List Char}

/-! ## Notations -/

/-- The digits of a decimal on both sides of a point, with zeros before and after them where there
would be a gap. A zero at either end stands alone on its side. -/
structure IsAround (d : Decimal) (integral fractional : List Char) : Prop where
  integral_isDigits : IsDigits integral
  fractional_isDigits : IsDigits fractional
  integral_head : integral = ['0'] ∨ integral.head? ≠ some '0'
  fractional_getLast : fractional = ['0'] ∨ fractional.getLast? ≠ some '0'
  digits : ∃ before after : Nat, d.exponent = after - fractional.length ∧ integral ++ fractional =
    List.replicate before '0' ++ d.digitChars ++ List.replicate after '0'

/-- Plain notation: digits on both sides of a point. -/
def IsPlain (d : Decimal) (text : List Char) : Prop :=
  ∃ integral fractional, text = integral ++ '.' :: fractional ∧ IsAround d integral fractional

/-- Notation with an exponent: the first digit, a point and the other digits if there are any, and
the exponent of the first digit as an integer. -/
def IsScientific (d : Decimal) (text : List Char) : Prop :=
  ∃ first others, d.digitChars = first :: others ∧ first ≠ '0' ∧
    text = first :: (if others = [] then [] else '.' :: others) ++
      'e' :: (toString d.leadingExponent).toList

theorem toList_toString (i : Int) : (toString i).toList = intChars i := by
  rw [Int.toString_eq_repr]
  cases i with
  | ofNat n =>
    have hnonneg : ¬ Int.ofNat n < 0 := Int.not_lt.mpr (Int.natCast_nonneg n)
    rw [intChars, if_neg hnonneg]
    exact Nat.toList_repr
  | negSucc n =>
    have hrepr : (Int.negSucc n).repr = "-" ++ (n + 1).repr := rfl
    rw [intChars, if_pos (Int.negSucc_lt_zero n), hrepr, String.toList_append, Nat.toList_repr]
    rfl

theorem isScientific_scientific (h : d.digits ≠ 0) : IsScientific d (scientific d) := by
  obtain ⟨first, others, hcons⟩ := List.exists_cons_of_ne_nil (isDigits_digitChars d).1
  have hfirst := Decimal.head?_digitChars_ne h
  rw [hcons, List.head?_cons, Ne, Option.some.injEq] at hfirst
  refine ⟨first, others, hcons, hfirst, ?_⟩
  unfold scientific
  dsimp only
  rw [hcons, toList_toString]
  cases others with
  | nil => rfl
  | cons second rest => rfl

/-- The digits with zeros around them are split into two sides, of which neither is empty. -/
theorem isAround_of_eq {integral fractional : List Char} (before after : Nat)
    (hdigits : integral ++ fractional =
      List.replicate before '0' ++ d.digitChars ++ List.replicate after '0')
    (hexponent : d.exponent = after - fractional.length)
    (hintegral : integral ≠ []) (hfractional : fractional ≠ [])
    (hhead : integral = ['0'] ∨ integral.head? ≠ some '0')
    (hlast : fractional = ['0'] ∨ fractional.getLast? ≠ some '0') :
    IsAround d integral fractional := by
  have hall : ∀ c ∈ integral ++ fractional, c.isDigit := by
    rw [hdigits, List.append_assoc]
    exact List.forall_mem_append.mpr ⟨isDigit_of_mem_zeros,
      List.forall_mem_append.mpr ⟨(isDigits_digitChars d).2, isDigit_of_mem_zeros⟩⟩
  obtain ⟨hall, hall'⟩ := List.forall_mem_append.mp hall
  exact ⟨⟨hintegral, hall⟩, ⟨hfractional, hall'⟩, hhead, hlast, before, after, hexponent, hdigits⟩

theorem isPlain_positional (h : d.digits % 10 ≠ 0) : IsPlain d (positional d) := by
  have hpositive := d.length_pos
  have hne : d.digitChars ≠ [] := List.length_pos_iff.mp hpositive
  have hhead := Decimal.head?_digitChars_ne (d := d) (by omega)
  have hlast := Decimal.getLast?_digitChars_ne h
  unfold positional
  dsimp only
  split
  · next hexponent =>
    obtain ⟨zeros, hzeros⟩ := Int.eq_ofNat_of_zero_le hexponent
    rw [hzeros, Int.toNat_natCast]
    refine ⟨d.digitChars ++ List.replicate zeros '0', ['0'], rfl, ?_⟩
    -- the zero after the point is one more of the zeros that follow the digits
    refine isAround_of_eq 0 (zeros + 1) ?_ ?_ ?_ ?_ (.inr ?_) (.inl rfl)
    · rw [List.append_assoc, ← List.replicate_succ']
      rfl
    · simp [hzeros]
    · simp [hne]
    · simp
    · rwa [List.head?_append_of_ne_nil _ hne]
  · next hexponent =>
    split
    · next hplaces =>
      refine ⟨_, _, rfl, isAround_of_eq 0 0 ?_ ?_ ?_ ?_ (.inr ?_) (.inr ?_)⟩
      · simp
      · simp only [List.length_drop]
        omega
      · rw [← List.length_pos_iff, List.length_take]
        omega
      · rw [← List.length_pos_iff, List.length_drop]
        omega
      · rw [List.head?_take, if_neg (by omega)]
        exact hhead
      · rw [List.getLast?_drop, if_neg (by omega)]
        exact hlast
    · next hplaces =>
      refine ⟨['0'], List.replicate (d.exponent.natAbs - d.digitChars.length) '0' ++ d.digitChars,
        rfl, ?_⟩
      -- the zero before the point is one more of the zeros that precede the digits
      refine isAround_of_eq (d.exponent.natAbs - d.digitChars.length + 1) 0 ?_ ?_ ?_ ?_ (.inl rfl)
        (.inr ?_)
      · simp [List.replicate_succ]
      · simp only [List.length_append, List.length_replicate]
        omega
      · simp
      · simp [hne]
      · rwa [List.getLast?_append_of_ne_nil _ hne]

/-! ## Which notation is written -/

theorem IsPlain.exponentLetter_notMem (h : IsPlain d text) : 'e' ∉ text := by
  obtain ⟨integral, fractional, rfl, haround⟩ := h
  have hletter : ∀ cs, IsDigits cs → 'e' ∉ cs := fun cs hcs hmem => absurd (hcs.2 _ hmem) (by decide)
  rw [List.mem_append, List.mem_cons]
  rintro (hmem | hpoint | hmem)
  · exact hletter _ haround.integral_isDigits hmem
  · exact absurd hpoint (by decide)
  · exact hletter _ haround.fractional_isDigits hmem

theorem IsScientific.exponentLetter_mem (h : IsScientific d text) : 'e' ∈ text := by
  obtain ⟨first, others, -, -, rfl⟩ := h
  exact List.mem_append_right _ List.mem_cons_self

theorem isPlain_write_iff (layout : Layout) (h : d.digits % 10 ≠ 0) :
    IsPlain d (layout.write d) ↔
      layout.positionalFrom ≤ d.leadingExponent ∧ d.leadingExponent < layout.positionalEnd := by
  have hdigits : d.digits ≠ 0 := by omega
  unfold Layout.write
  split
  · next hrange => exact iff_of_true (isPlain_positional h) hrange
  · next hrange =>
    have hletter := (isScientific_scientific hdigits).exponentLetter_mem
    exact iff_of_false (fun hplain => hplain.exponentLetter_notMem hletter) hrange

theorem isScientific_write_iff (layout : Layout) (h : d.digits % 10 ≠ 0) :
    IsScientific d (layout.write d) ↔
      ¬ (layout.positionalFrom ≤ d.leadingExponent ∧ d.leadingExponent < layout.positionalEnd) := by
  have hdigits : d.digits ≠ 0 := by omega
  unfold Layout.write
  split
  · next hrange =>
    have hletter := (isPlain_positional h).exponentLetter_notMem
    exact iff_of_false (fun hscientific => hletter hscientific.exponentLetter_mem)
      (not_not.mpr hrange)
  · next hrange => exact iff_of_true (isScientific_scientific hdigits) hrange

/-- The decades of the plain notation, for shortest decimals and for values. Ten to the sixteenth is
a value; a ten-thousandth is not, but the value that it rounds to is greater. -/
theorem layout_iff {p : Nat} (hd : d.IsShortest p) :
    layout.positionalFrom ≤ d.leadingExponent ∧ d.leadingExponent < layout.positionalEnd ↔
      1 / 10 ^ 4 ≤ Binary64.magnitude p ∧ Binary64.magnitude p < 10 ^ 16 := by
  have hdigits : d.digits ≠ 0 := fun hzero => hd.stripped (by rw [hzero])
  have hlow : (10 : ℚ) ^ (-4 : Int) ≤ d.toRat ↔ 10 ^ (-4 : Int) ≤ Binary64.magnitude p := by
    have hnearest : Decimal.nearest ⟨1, -4⟩ = 0x3F1A36E2EB1C432D := by decide +kernel
    refine hd.pow_le_toRat_iff (by decide) hnearest (Decimal.toRat_le_magnitude_iff.mpr ?_)
    decide +kernel
  have hhigh : (10 : ℚ) ^ (16 : Int) ≤ d.toRat ↔ 10 ^ (16 : Int) ≤ Binary64.magnitude p := by
    have hnearest : Decimal.nearest ⟨1, 16⟩ = 0x4341C37937E08000 := by decide +kernel
    refine hd.pow_le_toRat_iff (by decide) hnearest (Decimal.toRat_le_magnitude_iff.mpr ?_)
    decide +kernel
  have hfrom : (10 : ℚ) ^ (-4 : Int) = 1 / 10 ^ 4 := by norm_num
  have hend : (10 : ℚ) ^ (16 : Int) = 10 ^ 16 := by norm_num
  rw [Decimal.pow_le_toRat_iff hdigits, hfrom] at hlow
  rw [Decimal.pow_le_toRat_iff hdigits, hend] at hhigh
  change -4 ≤ d.leadingExponent ∧ d.leadingExponent < 16 ↔ _
  exact and_congr hlow (by rw [← not_le, hhigh, not_le])

theorem toList_write {x : Float} (hzero : Binary64.pattern x ≠ 0)
    (hfinite : Binary64.pattern x < Binary64.infinity) :
    (write x).toList = (if Binary64.isNegative x then ['-'] else []) ++
      layout.write (Decimal.shortest (Binary64.pattern x)) := by
  have htext : writePattern (Binary64.pattern x) =
      layout.write (Decimal.shortest (Binary64.pattern x)) := by
    rw [writePattern, if_neg hzero, if_pos hfinite]
  rw [write, String.toList_ofList, htext]
  by_cases hnegative : Binary64.isNegative x
  · rw [if_pos ⟨hnegative, hfinite.le⟩, if_pos hnegative, List.singleton_append]
  · rw [if_neg fun h => hnegative h.1, if_neg hnegative, List.nil_append]

/-- A finite value other than zero is written as a minus sign where one is needed and the text of a
decimal that rounds to the value, has the fewest digits of all that do, and is closest to the value
of all that have as many digits. The text is in plain notation if the absolute value is at least a
ten-thousandth and less than ten to the sixteenth, and otherwise has an exponent. -/
theorem write_shortest {x : Float} (hzero : Binary64.pattern x ≠ 0)
    (hfinite : Binary64.pattern x < Binary64.infinity) :
    ∃ d text, (write x).toList = (if Binary64.isNegative x then ['-'] else []) ++ text ∧
      Decimal.IsShortest d (Binary64.pattern x) ∧
      (IsPlain d text ↔ 1 / 10 ^ 4 ≤ Binary64.magnitude (Binary64.pattern x) ∧
        Binary64.magnitude (Binary64.pattern x) < 10 ^ 16) ∧
      (IsScientific d text ↔ ¬ (1 / 10 ^ 4 ≤ Binary64.magnitude (Binary64.pattern x) ∧
        Binary64.magnitude (Binary64.pattern x) < 10 ^ 16)) := by
  have hshortest := Decimal.isShortest_shortest hzero hfinite
  refine ⟨_, _, toList_write hzero hfinite, hshortest, ?_, ?_⟩
  · rw [isPlain_write_iff layout hshortest.stripped, layout_iff hshortest]
  · rw [isScientific_write_iff layout hshortest.stripped, layout_iff hshortest]

/-- The values below a power of two lie closer together than those above it. -/
theorem write_shortest_power_of_two :
    let x := Binary64.toFloat true 0x4580000000000000
    Binary64.magnitude (Binary64.pattern x) = 2 ^ 89 ∧ write x = "-6.189700196426902e26" ∧
      ∃ d, Decimal.IsShortest d (Binary64.pattern x) ∧
        IsScientific d "6.189700196426902e26".toList := by
  intro x
  have hpattern : Binary64.pattern x = 0x4580000000000000 := by decide +kernel
  have hnegative : Binary64.isNegative x = true := by decide +kernel
  have htext : write x = "-6.189700196426902e26" := by decide +kernel
  have hmagnitude : Binary64.magnitude 0x4580000000000000 = 2 ^ 89 := by
    have hunits : Binary64.units 0x4580000000000000 = 2 ^ (89 + 1074) := by decide +kernel
    rw [Binary64.magnitude, hunits, Nat.cast_pow, Nat.cast_ofNat, pow_add]
    exact mul_div_cancel_right₀ _ (by positivity)
  obtain ⟨d, text, heq, hshortest, -, hscientific⟩ :=
    @write_shortest x (by decide +kernel) (by decide +kernel)
  rw [htext, if_pos hnegative, List.singleton_append] at heq
  obtain rfl : "6.189700196426902e26".toList = text := (List.cons_eq_cons.mp heq).2
  rw [hpattern] at hshortest hscientific ⊢
  refine ⟨hmagnitude, htext, d, hshortest, hscientific.mpr fun hrange => ?_⟩
  rw [hmagnitude] at hrange
  norm_num at hrange

end InfixCalculator.Numeral
