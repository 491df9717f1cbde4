import InfixCalculator.Proofs.Decimal.Value
import InfixCalculator.Proofs.Numeral.Digits
import InfixCalculator.Proofs.Text.LetterCase
import InfixCalculator.Proofs.Token.Munch

/-!
# The texts that are numerals

The grammar of numerals, piece by piece, without a word about how they are read. A decimal numeral
denotes its digits as a natural number, times ten to the power of its exponent less the number of
digits after the point. Exactly the texts of the grammar are read, and a decimal numeral whose
exponent is below 65536 is read as the number that it denotes.

* `IsSign`, `IsSpecial`, `IsSignificand`, `IsExponent`: the pieces of numerals.
* `IsDecimal`, `IsNumeral`: decimal numerals with what they denote, and all numerals.
* `parse?_of_isDecimal`, `exists_parse?_of_isSpecial`: numerals are read.
* `isNumeral_of_parse?`: nothing else is.
-/

namespace InfixCalculator.Numeral

open Token (IsDigits)

/-! ## Numerals and their pieces -/

/-- A sign, or none; `true` stands for a minus sign. -/
inductive IsSign : List Char → Bool → Prop
  | missing : IsSign [] false
  | plus : IsSign ['+'] false
  | minus : IsSign ['-'] true

/-- One of the words that stand for a value, each letter small or capital. -/
def IsSpecial (word : List Char) : Prop :=
  List.Forall₂ (· ∈ ·) word [['i', 'I'], ['n', 'N'], ['f', 'F']] ∨
  List.Forall₂ (· ∈ ·) word [['i', 'I'], ['n', 'N'], ['f', 'F'], ['i', 'I'], ['n', 'N'],
    ['i', 'I'], ['t', 'T'], ['y', 'Y']] ∨
  List.Forall₂ (· ∈ ·) word [['n', 'N'], ['a', 'A'], ['n', 'N']]

/-- Digits with at most one point among them or at an end, at least one digit in all. Beside the
text stand its digits and how many of them come after the point. -/
inductive IsSignificand : List Char → List Char → Nat → Prop
  | whole {ds : List Char} (hds : IsDigits ds) : IsSignificand ds ds 0
  | point {ds fs : List Char} (hdigits : IsDigits (ds ++ fs)) :
      IsSignificand (ds ++ '.' :: fs) (ds ++ fs) fs.length

/-- A letter, a sign and digits, or nothing, with the exponent that they denote. -/
inductive IsExponent : List Char → Int → Prop
  | missing : IsExponent [] 0
  | given {letter : Char} {sign ds : List Char} {negative : Bool}
      (hletter : letter = 'e' ∨ letter = 'E') (hsign : IsSign sign negative) (hds : IsDigits ds) :
      IsExponent (letter :: (sign ++ ds))
        (if negative then -(Nat.ofDigitChars 10 ds 0 : Int) else Nat.ofDigitChars 10 ds 0)

/-- A decimal numeral, with its sign, its exponent and the number that it denotes without the
sign. -/
inductive IsDecimal : List Char → Bool → Int → ℚ → Prop
  | intro {sign significand exponent digits : List Char} {negative : Bool} {places : Nat} {e : Int}
      (hsign : IsSign sign negative) (hsignificand : IsSignificand significand digits places)
      (hexponent : IsExponent exponent e) :
      IsDecimal (sign ++ (significand ++ exponent)) negative e
        (Nat.ofDigitChars 10 digits 0 * 10 ^ (e - places))

/-- A sign and a word, or a decimal numeral. -/
def IsNumeral (text : List Char) : Prop :=
  (∃ sign negative word, IsSign sign negative ∧ IsSpecial word ∧ text = sign ++ word) ∨
    ∃ negative exponent value, IsDecimal text negative exponent value

variable {cs ds sign significand exponent digits rest : List Char} {negative : Bool} {places : Nat}
  {e : Int} {value : ℚ}

/-! ## Signs -/

theorem IsSign.sign_append (h : IsSign sign negative) (hrest : ∀ c ∈ rest.head?, isUnsigned c) :
    Numeral.sign (sign ++ rest) = (negative, rest) := by
  cases h with
  | missing => exact sign_eq_self hrest
  | plus => rfl
  | minus => rfl

theorem exists_isSign (cs : List Char) :
    ∃ sign, IsSign sign (Numeral.sign cs).1 ∧ cs = sign ++ (Numeral.sign cs).2 := by
  unfold Numeral.sign
  split
  · exact ⟨['-'], .minus, rfl⟩
  · exact ⟨['+'], .plus, rfl⟩
  · exact ⟨[], .missing, rfl⟩

/-! ## Exponents -/

/-- Every exponent is read, and one below 65536 as what it denotes. -/
theorem IsExponent.exists_exponent? (h : IsExponent exponent e) :
    ∃ e', exponent? exponent = some e' ∧ (e.natAbs < 65536 → e' = e) := by
  cases h with
  | missing => exact ⟨0, rfl, fun _ => rfl⟩
  | @given letter sign ds negative hletter hsign hds =>
    have hunsigned : ∀ c ∈ ds.head?, isUnsigned c := fun c hc =>
      isUnsigned_of_isDigit (hds.2 c (List.mem_of_mem_head? hc))
    have hread := exponent?_cons hletter (hsign.sign_append hunsigned)
      ⟨hds.1, List.all_eq_true.mpr hds.2⟩
    refine ⟨_, hread, fun hsmall => ?_⟩
    have hdigits : Nat.ofDigitChars 10 ds 0 < 65536 := by
      split at hsmall <;> omega
    rw [exponentValue_eq hdigits]

/-- Nothing else is read as an exponent. -/
theorem exists_isExponent {e' : Int} (h : exponent? cs = some e') : ∃ e, IsExponent cs e := by
  cases cs with
  | nil => exact ⟨0, .missing⟩
  | cons letter cs =>
    obtain ⟨sign, hsign, hcs⟩ := exists_isSign cs
    simp only [exponent?] at h
    split at h
    · next hparts =>
      obtain ⟨hletter, hne, hall⟩ := hparts
      rw [hcs]
      exact ⟨_, .given hletter hsign ⟨hne, List.all_eq_true.mp hall⟩⟩
    · cases h

/-- What an exponent starts with is neither a digit nor a point. -/
theorem IsExponent.head (h : IsExponent exponent e) :
    Misses Char.isDigit exponent ∧ exponent.head? ≠ some '.' := by
  cases h with
  | missing => exact ⟨nofun, nofun⟩
  | given hletter =>
    rcases hletter with rfl | rfl
    · exact ⟨by rintro _ ⟨⟩; decide, by simp⟩
    · exact ⟨by rintro _ ⟨⟩; decide, by simp⟩

/-! ## Significands -/

/-- A significand and an exponent are read as a decimal if the exponent is read. -/
theorem IsSignificand.decimal?_append (h : IsSignificand significand digits places)
    (hexponent : IsExponent exponent e) :
    decimal? (significand ++ exponent) =
      (exponent? exponent).map fun e => ⟨Nat.ofDigitChars 10 digits 0, e - places⟩ := by
  obtain ⟨hdigit, hpoint⟩ := hexponent.head
  cases h with
  | whole hds =>
    rw [decimal?_integral hds.2 hds.1 hdigit hpoint]
    simp only [Int.natCast_zero, Int.sub_zero]
  | point hdigits =>
    obtain ⟨hds, hfs⟩ := List.forall_mem_append.mp hdigits.2
    rw [List.append_assoc, List.cons_append]
    exact decimal?_point hds hfs hdigits.1 hdigit

/-- What is read as a decimal is a significand and an exponent. -/
theorem exists_isSignificand {d : Decimal} (h : decimal? cs = some d) :
    ∃ significand exponent digits places e, cs = significand ++ exponent ∧
      IsSignificand significand digits places ∧ IsExponent exponent e := by
  obtain ⟨ds, rest, rfl, hds, hrest⟩ := exists_span Char.isDigit cs
  by_cases hpoint : rest.head? = some '.'
  · obtain ⟨after, rfl⟩ : ∃ after, rest = '.' :: after := List.head?_eq_some_iff.mp hpoint
    obtain ⟨fs, rest', rfl, hfs, hrest'⟩ := exists_span Char.isDigit after
    by_cases hempty : ds ++ fs = []
    · -- a point alone
      obtain ⟨rfl, rfl⟩ := List.append_eq_nil_iff.mp hempty
      have hbefore := @takeWhile_eq_of_misses Char Char.isDigit [] _ nofun hrest
      have hpoint := @dropWhile_eq_of_misses Char Char.isDigit [] _ nofun hrest
      have hafter := @takeWhile_eq_of_misses Char Char.isDigit [] _ nofun hrest'
      simp only [decimal?, hbefore, hpoint, fraction, hafter] at h
      cases h
    · rw [decimal?_point hds hfs hempty hrest', Option.map_eq_some_iff] at h
      obtain ⟨e', hread, -⟩ := h
      obtain ⟨e, hexponent⟩ := exists_isExponent hread
      refine ⟨ds ++ '.' :: fs, rest', _, _, e, ?_, .point ⟨hempty, ?_⟩, hexponent⟩
      · rw [List.append_assoc, List.cons_append]
      · exact List.forall_mem_append.mpr ⟨hds, hfs⟩
  · by_cases hempty : ds = []
    · subst hempty
      have hbefore := @takeWhile_eq_of_misses Char Char.isDigit [] _ nofun hrest
      have hafter := @dropWhile_eq_of_misses Char Char.isDigit [] _ nofun hrest
      simp only [decimal?, hbefore, hafter, fraction_of_head?_ne hpoint] at h
      cases h
    · rw [decimal?_integral hds hempty hrest hpoint, Option.map_eq_some_iff] at h
      obtain ⟨e', hread, -⟩ := h
      obtain ⟨e, hexponent⟩ := exists_isExponent hread
      exact ⟨ds, rest, _, _, e, rfl, .whole ⟨hempty, hds⟩, hexponent⟩

/-- A significand starts with a digit or a point. -/
theorem IsSignificand.exists_cons (h : IsSignificand significand digits places) :
    ∃ c cs, significand = c :: cs ∧ (c.isDigit ∨ c = '.') := by
  cases h with
  | whole hds =>
    obtain ⟨c, cs, rfl⟩ := List.exists_cons_of_ne_nil hds.1
    exact ⟨c, cs, rfl, .inl (hds.2 c List.mem_cons_self)⟩
  | @point ds fs hdigits =>
    cases ds with
    | nil => exact ⟨'.', fs, rfl, .inr rfl⟩
    | cons c ds => exact ⟨c, _, rfl, .inl (hdigits.2 c List.mem_cons_self)⟩

/-! ## Words -/

/-- The words are told by their small letters. -/
theorem isSpecial_iff : IsSpecial cs ↔
    (cs.map Char.toLower = "inf".toList ∨ cs.map Char.toLower = "infinity".toList) ∨
      cs.map Char.toLower = "nan".toList := by
  have hinf := @Text.map_toLower_eq_iff cs "INF".toList (List.all_eq_true.mp (by decide))
  have hinfinity := @Text.map_toLower_eq_iff cs "INFINITY".toList (List.all_eq_true.mp (by decide))
  have hnan := @Text.map_toLower_eq_iff cs "NAN".toList (List.all_eq_true.mp (by decide))
  rw [or_assoc]
  exact (or_congr hinf (or_congr hinfinity hnan)).symm

/-- A word starts with a letter. -/
theorem IsSpecial.exists_cons (h : IsSpecial cs) :
    ∃ c rest, cs = c :: rest ∧ c ∈ ['i', 'I', 'n', 'N'] := by
  have hfirst : ∀ {letters : List Char} {classes : List (List Char)},
      List.Forall₂ (· ∈ ·) cs (letters :: classes) → letters ⊆ ['i', 'I', 'n', 'N'] →
      ∃ c rest, cs = c :: rest ∧ c ∈ ['i', 'I', 'n', 'N'] := by
    intro letters classes hword hletters
    obtain ⟨c, rest, hc, -, rfl⟩ := List.forall₂_cons_right_iff.mp hword
    exact ⟨c, rest, rfl, hletters hc⟩
  rcases h with hword | hword | hword
  · exact hfirst hword (by simp)
  · exact hfirst hword (by simp)
  · exact hfirst hword (by simp)

/-- A digit or a point starts no word. -/
theorem not_isSpecial_cons {c : Char} (h : c.isDigit ∨ c = '.') (rest : List Char) :
    ¬ IsSpecial (c :: rest) := by
  intro hspecial
  obtain ⟨_, _, ⟨⟩, hletter⟩ := hspecial.exists_cons
  have hnone : ['i', 'I', 'n', 'N'].all fun c => ¬ (c.isDigit ∨ c = '.') := by decide
  exact of_decide_eq_true (List.all_eq_true.mp hnone c hletter) h

/-- A word has a magnitude, and any other text has that of a decimal if it is one. -/
theorem magnitude?_of_isSpecial (h : IsSpecial cs) : ∃ m, magnitude? cs = some m := by
  unfold magnitude?
  dsimp only
  split
  · exact ⟨_, rfl⟩
  · next hinfinite =>
    rw [if_pos ((isSpecial_iff.mp h).resolve_left hinfinite)]
    exact ⟨_, rfl⟩

theorem magnitude?_of_not_isSpecial (h : ¬ IsSpecial cs) :
    magnitude? cs = (decimal? cs).map .decimal := by
  rw [isSpecial_iff, not_or] at h
  simp only [magnitude?, if_neg h.1, if_neg h.2]

/-! ## Numerals -/

/-- What a significand starts with begins no word and is no sign. -/
theorem IsSignificand.head (h : IsSignificand significand digits places) (rest : List Char) :
    ¬ IsSpecial (significand ++ rest) ∧ ∀ c ∈ (significand ++ rest).head?, isUnsigned c := by
  obtain ⟨c, cs, rfl, hc⟩ := h.exists_cons
  refine ⟨not_isSpecial_cons hc _, ?_⟩
  rintro _ ⟨⟩
  rcases hc with hdigit | rfl
  · exact isUnsigned_of_isDigit hdigit
  · decide

/-- A decimal numeral is read, and if its exponent is below 65536, as the number that it denotes. -/
theorem parse?_of_isDecimal (h : IsDecimal cs negative e value) :
    ∃ d : Decimal, parse? cs = some ⟨negative, .decimal d⟩ ∧
      (e.natAbs < 65536 → d.toRat = value) := by
  obtain @⟨sign, significand, exponent, digits, negative, places, e, hsign, hsignificand,
    hexponent⟩ := h
  obtain ⟨hspecial, hunsigned⟩ := hsignificand.head exponent
  obtain ⟨e', hread, he'⟩ := hexponent.exists_exponent?
  refine ⟨⟨Nat.ofDigitChars 10 digits 0, e' - places⟩, ?_, ?_⟩
  · simp only [parse?, hsign.sign_append hunsigned]
    rw [magnitude?_of_not_isSpecial hspecial, hsignificand.decimal?_append hexponent, hread]
    rfl
  · intro hsmall
    rw [he' hsmall]
    rfl

theorem exists_parse?_of_isSpecial (hsign : IsSign sign negative) (h : IsSpecial cs) :
    ∃ n, parse? (sign ++ cs) = some n := by
  obtain ⟨m, hm⟩ := magnitude?_of_isSpecial h
  obtain ⟨c, rest, rfl, hletter⟩ := h.exists_cons
  have hunsigned : ∀ d ∈ (c :: rest).head?, isUnsigned d := by
    rintro _ ⟨⟩
    exact List.all_eq_true.mp (by decide : ['i', 'I', 'n', 'N'].all isUnsigned) c hletter
  exact ⟨⟨negative, m⟩, by simp only [parse?, hsign.sign_append hunsigned, hm, Option.map_some]⟩

/-- Nothing else is read. -/
theorem isNumeral_of_parse? {n : Numeral} (h : parse? cs = some n) : IsNumeral cs := by
  obtain ⟨sign, hsign, hcs⟩ := exists_isSign cs
  obtain ⟨m, hm, -⟩ := Option.map_eq_some_iff.mp h
  change magnitude? (Numeral.sign cs).2 = some m at hm
  by_cases hspecial : IsSpecial (Numeral.sign cs).2
  · exact .inl ⟨sign, _, _, hsign, hspecial, hcs⟩
  · rw [magnitude?_of_not_isSpecial hspecial, Option.map_eq_some_iff] at hm
    obtain ⟨d, hd, -⟩ := hm
    obtain ⟨significand, exponent, digits, places, e, heq, hsignificand, hexponent⟩ :=
      exists_isSignificand hd
    rw [hcs, heq]
    exact .inr ⟨_, _, _, .intro hsign hsignificand hexponent⟩

theorem exists_parse?_iff : (∃ n, parse? cs = some n) ↔ IsNumeral cs := by
  constructor
  · intro h
    obtain ⟨n, hn⟩ := h
    exact isNumeral_of_parse? hn
  · rintro (⟨sign, negative, word, hsign, hword, rfl⟩ | ⟨negative, e, value, hdecimal⟩)
    · exact exists_parse?_of_isSpecial hsign hword
    · obtain ⟨d, hd, -⟩ := parse?_of_isDecimal hdecimal
      exact ⟨_, hd⟩

end InfixCalculator.Numeral
