import InfixCalculator.Numeral.Value
import InfixCalculator.Proofs.Numeral.Grammar
import InfixCalculator.Proofs.Token.Separation

/-!
# Plain numbers are numerals

The tokens of a text that are numbers are digits, or digits, a point and digits. Every such text is
a numeral, so reading its value never fails.
-/

namespace InfixCalculator.Numeral

open Token (IsDigits IsPlainNumber)

/-- A text that starts with a digit is none of the words that stand for a value. -/
theorem magnitude?_of_isDigit {c : Char} (h : c.isDigit) (cs : List Char) :
    magnitude? (c :: cs) = (decimal? (c :: cs)).map .decimal :=
  magnitude?_of_not_isSpecial (not_isSpecial_cons (.inl h) cs)

theorem exists_decimal?_of_isPlainNumber {cs : List Char} (h : IsPlainNumber cs) :
    ∃ d, decimal? cs = some d := by
  have hend : Misses Char.isDigit [] := nofun
  cases h with
  | integral hds =>
    have hread := decimal?_integral hds.2 hds.1 hend nofun
    rw [List.append_nil] at hread
    exact ⟨_, hread⟩
  | fractional hds hfs =>
    have hread := decimal?_point hds.2 hfs.2 (by simp [hds.1]) hend
    rw [List.append_nil] at hread
    exact ⟨_, hread⟩

theorem IsPlainNumber.head {cs : List Char} (h : IsPlainNumber cs) :
    ∃ d ds, cs = d :: ds ∧ d.isDigit := by
  cases h with
  | integral hds =>
    obtain ⟨d, ds, rfl⟩ := List.exists_cons_of_ne_nil hds.1
    exact ⟨d, ds, rfl, hds.2 d List.mem_cons_self⟩
  | fractional hds =>
    obtain ⟨d, ds, rfl⟩ := List.exists_cons_of_ne_nil hds.1
    exact ⟨d, _, rfl, hds.2 d List.mem_cons_self⟩

/-- Every plain number has a value. -/
theorem exists_read?_of_isPlainNumber {text : String} (h : IsPlainNumber text.toList) :
    ∃ x, read? text = some x := by
  obtain ⟨d, hd⟩ := exists_decimal?_of_isPlainNumber h
  obtain ⟨c, cs, htext, hc⟩ := IsPlainNumber.head h
  rw [htext] at hd
  refine ⟨value ⟨false, .decimal d⟩, ?_⟩
  unfold read? parse?
  rw [htext, sign_of_isDigit hc]
  simp only [magnitude?_of_isDigit hc, hd, Option.map_some]

end InfixCalculator.Numeral
