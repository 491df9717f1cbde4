import InfixCalculator.Numeral.Grammar
import InfixCalculator.Numeral.Layout
import InfixCalculator.Proofs.Span

/-!
# Reading digits

How the parts of a numeral are read: digits up to a point or an exponent, the digits after a point,
and an exponent to the end.

* `decimal?_integral`, `decimal?_point`: digits without and with a point among them.
* `exponentValue_eq`: the digits of an exponent below 65536 mean what they say.
* `exponent?_intChars`: a written exponent is read back.
-/

namespace InfixCalculator.Numeral

variable {ds fs rest : List Char}

theorem fraction_of_head?_ne (h : rest.head? ≠ some '.') : fraction rest = ([], rest) := by
  unfold fraction
  split
  · exact absurd rfl h
  · rfl

/-- Digits without a point, up to an exponent or the end. -/
theorem decimal?_integral (hds : ∀ c ∈ ds, c.isDigit) (hne : ds ≠ [])
    (hrest : Misses Char.isDigit rest) (hpoint : rest.head? ≠ some '.') :
    decimal? (ds ++ rest) = (exponent? rest).map fun e => ⟨Nat.ofDigitChars 10 ds 0, e⟩ := by
  unfold decimal?
  simp only [takeWhile_eq_of_misses hds hrest, dropWhile_eq_of_misses hds hrest,
    fraction_of_head?_ne hpoint, List.append_nil, if_neg hne, List.length_nil, Int.natCast_zero,
    Int.sub_zero]

theorem misses_point (cs : List Char) : Misses Char.isDigit ('.' :: cs) := by
  intro c hfirst
  cases hfirst
  decide

/-- Digits with a point among them, up to an exponent or the end. -/
theorem decimal?_point (hds : ∀ c ∈ ds, c.isDigit) (hfs : ∀ c ∈ fs, c.isDigit)
    (hne : ds ++ fs ≠ []) (hrest : Misses Char.isDigit rest) :
    decimal? (ds ++ '.' :: (fs ++ rest)) =
      (exponent? rest).map fun e => ⟨Nat.ofDigitChars 10 (ds ++ fs) 0, e - fs.length⟩ := by
  have hpoint := misses_point (fs ++ rest)
  unfold decimal?
  simp only [takeWhile_eq_of_misses hds hpoint, dropWhile_eq_of_misses hds hpoint, fraction,
    takeWhile_eq_of_misses hfs hrest, dropWhile_eq_of_misses hfs hrest, if_neg hne]

/-! ## Exponents -/

theorem le_ofDigitChars (ds : List Char) (n : Nat) : n ≤ Nat.ofDigitChars 10 ds n := by
  induction ds generalizing n with
  | nil => exact le_refl n
  | cons c cs ih =>
    have h := ih (10 * n + (c.toNat - '0'.toNat))
    rw [Nat.ofDigitChars_cons]
    omega

/-- The digits of an exponent are all read as long as the exponent is below 65536. -/
theorem exponentValue_eq (h : Nat.ofDigitChars 10 ds 0 < 65536) :
    exponentValue ds = Nat.ofDigitChars 10 ds 0 := by
  -- on the digits, from any exponent that was read before them
  have hfold : ∀ n, Nat.ofDigitChars 10 ds n < 65536 →
      ds.foldl (fun e c => if e < 65536 then 10 * e + (c.toNat - '0'.toNat) else e) n =
        Nat.ofDigitChars 10 ds n := by
    clear h
    induction ds with
    | nil => exact fun _ _ => rfl
    | cons c cs ih =>
      intro n hn
      have hle := le_ofDigitChars (c :: cs) n
      rw [List.foldl_cons, if_pos (by omega), Nat.ofDigitChars_cons]
      exact ih _ hn
  exact hfold 0 h

theorem isDigit_of_mem_toDigits {n : Nat} : ∀ c ∈ Nat.toDigits 10 n, c.isDigit := fun _ =>
  Nat.isDigit_of_mem_toDigits (by decide) (by decide)

theorem exponentValue_toDigits {n : Nat} (h : n < 65536) :
    exponentValue (Nat.toDigits 10 n) = n := by
  rw [exponentValue_eq (by rwa [Nat.ofDigitChars_ten_toDigits]), Nat.ofDigitChars_ten_toDigits]

/-- Neither of the two signs. -/
def isUnsigned (c : Char) : Bool := c ≠ '+' && c ≠ '-'

theorem sign_eq_self {cs : List Char} (h : ∀ c ∈ cs.head?, isUnsigned c) : sign cs = (false, cs) := by
  unfold sign
  split
  · exact absurd (h '-' rfl) (by decide)
  · exact absurd (h '+' rfl) (by decide)
  · rfl

theorem isUnsigned_of_isDigit {c : Char} (h : c.isDigit) : isUnsigned c := by
  have hplus : c ≠ '+' := by
    rintro rfl
    exact absurd h (by decide)
  have hminus : c ≠ '-' := by
    rintro rfl
    exact absurd h (by decide)
  simp [isUnsigned, hplus, hminus]

theorem sign_of_isDigit {c : Char} (h : c.isDigit) (cs : List Char) :
    sign (c :: cs) = (false, c :: cs) := by
  apply sign_eq_self
  rintro _ ⟨⟩
  exact isUnsigned_of_isDigit h

theorem sign_toDigits (n : Nat) : sign (Nat.toDigits 10 n) = (false, Nat.toDigits 10 n) := by
  obtain ⟨c, cs, hcons⟩ := List.exists_cons_of_ne_nil (Nat.toDigits_ne_nil (n := n) (b := 10))
  have hc : c.isDigit := isDigit_of_mem_toDigits c (hcons ▸ List.mem_cons_self)
  rw [hcons, sign_of_isDigit hc]

theorem exponent?_cons {c : Char} {cs : List Char} {negative : Bool} (hc : c = 'e' ∨ c = 'E')
    (hsign : sign cs = (negative, ds)) (hds : ds ≠ [] ∧ ds.all Char.isDigit) :
    exponent? (c :: cs) =
      some (if negative then -(exponentValue ds : Int) else exponentValue ds) := by
  unfold exponent?
  simp only [hsign]
  rw [if_pos ⟨hc, hds⟩]

/-- A written exponent is read back. -/
theorem exponent?_intChars {i : Int} (h : i.natAbs < 65536) :
    exponent? ('e' :: intChars i) = some i := by
  have hdigits : Nat.toDigits 10 i.natAbs ≠ [] ∧ (Nat.toDigits 10 i.natAbs).all Char.isDigit :=
    ⟨Nat.toDigits_ne_nil, List.all_eq_true.mpr isDigit_of_mem_toDigits⟩
  unfold intChars
  split
  · next hneg =>
    have hsign : sign ('-' :: Nat.toDigits 10 i.natAbs) = (true, Nat.toDigits 10 i.natAbs) := rfl
    rw [exponent?_cons (.inl rfl) hsign hdigits, if_pos rfl, exponentValue_toDigits h]
    exact congrArg some (by omega)
  · next hnonneg =>
    rw [exponent?_cons (.inl rfl) (sign_toDigits _) hdigits, if_neg Bool.false_ne_true,
      exponentValue_toDigits h]
    exact congrArg some (by omega)

end InfixCalculator.Numeral
