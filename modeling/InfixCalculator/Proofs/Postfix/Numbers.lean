import InfixCalculator.Proofs.Binary64.Nearest
import InfixCalculator.Proofs.Numeral.Grammar
import InfixCalculator.Proofs.Postfix.Rejection
import InfixCalculator.Proofs.Postfix.Rendering

/-!
# Number tokens

A number token may have any text. It is taken if the text is a numeral, and is the fault of the list
otherwise; and the value of a decimal numeral is the float that the number it denotes rounds to.

* `Numeral.exists_read?_of_isDecimal`: the value of a decimal numeral.
* `Token.isBad_number_iff`: the number tokens that are rejected.
* `Postfix.ofTokens_number`: which number tokens are taken, and with which values.
-/

namespace InfixCalculator

open Binary64 (RoundsTo IsRounding infinity signed toFloat toRat)

/-! ## Values of numerals -/

namespace Numeral

variable {text : String}

theorem read?_eq_none_iff : read? text = none ↔ ¬ IsNumeral text.toList := by
  rw [read?, Option.map_eq_none_iff, Option.eq_none_iff_forall_ne_some, ← exists_parse?_iff,
    not_exists]

/-- The number that a decimal numeral denotes, rounded. -/
theorem exists_read?_of_isDecimal {negative : Bool} {e : Int} {value : ℚ}
    (h : IsDecimal text.toList negative e value) (he : e.natAbs < 65536) :
    0 ≤ value ∧ ∃ p, RoundsTo value p ∧ read? text = some (toFloat negative (min p infinity)) := by
  obtain ⟨d, hparse, hvalue⟩ := parse?_of_isDecimal h
  obtain ⟨p, hp, hnearest⟩ := d.exists_roundsTo
  obtain rfl := hvalue he
  refine ⟨d.toRat_nonneg, p, hp, ?_⟩
  rw [read?, hparse, Option.map_some, Numeral.value, Magnitude.pattern, hnearest]

end Numeral

open Numeral (IsNumeral IsDecimal)

/-! ## Tokens -/

/-- A number token is rejected exactly if its text is no numeral, whatever the table. -/
theorem Token.isBad_number_iff {table : Variables} {text : String} :
    (⟨.number, text⟩ : Token).IsBad table ↔ ¬ IsNumeral text.toList := Numeral.read?_eq_none_iff

namespace Postfix

/-- Which number tokens are taken, and with which values. Among tokens that mean something, a number
token is taken exactly if its text is a numeral; otherwise it is the fault of the list, whatever
comes after it. A decimal numeral of any length, its exponent below 65536, has the value that the
number it denotes rounds to: the closest finite float, of two the even one, infinity from the
midpoint after the last finite float on, and zero up to half of the least one, all with the sign of
the text. So a numeral that denotes a greater number never has a smaller value. -/
theorem ofTokens_number (table : Variables) (text : String) :
    (∀ before after : List Token, (∀ t ∈ before ++ after, ¬ t.IsBad table) →
      ((∃ program, (ofTokens table (before ++ ⟨.number, text⟩ :: after)).result = .ok program) ↔
        IsNumeral text.toList)) ∧
    (∀ before after : List Token, (∀ t ∈ before, ¬ t.IsBad table) → ¬ IsNumeral text.toList →
      (ofTokens table (before ++ ⟨.number, text⟩ :: after)).result = .error (.meaningless text)) ∧
    ∀ negative e value, IsDecimal text.toList negative e value → e.natAbs < 65536 →
      ∃ x, Symbol.ofToken table ⟨.number, text⟩ = .ok (.value x) ∧
        (ofTokens table [(⟨.number, text⟩ : Token)]).result = .ok [.value x] ∧
        IsRounding negative value x ∧
        ∀ (text' : String) negative' e' value', IsDecimal text'.toList negative' e' value' →
          e'.natAbs < 65536 → signed negative value ≤ signed negative' value' →
          ∃ x', (ofTokens table [(⟨.number, text'⟩ : Token)]).result = .ok [.value x'] ∧
            toRat x ≤ toRat x' := by
  have hreject : ∀ before after : List Token, (∀ t ∈ before, ¬ t.IsBad table) →
      ¬ IsNumeral text.toList →
      (ofTokens table (before ++ ⟨.number, text⟩ :: after)).result = .error (.meaningless text) := by
    intro before after hbefore hnot
    exact congrArg Traced.result
      (ofTokens_of_first_bad hbefore (Token.isBad_number_iff.mpr hnot) after)
  refine ⟨?_, hreject, ?_⟩
  · intro before after hgood
    obtain ⟨hbefore, hafter⟩ := List.forall_mem_append.mp hgood
    constructor
    · intro h
      obtain ⟨program, hprogram⟩ := h
      by_contra hnot
      rw [hreject before after hbefore hnot] at hprogram
      cases hprogram
    · intro hnumeral
      have hnumber : ¬ (⟨.number, text⟩ : Token).IsBad table :=
        fun hbad => Token.isBad_number_iff.mp hbad hnumeral
      obtain ⟨program, hread⟩ := ofTokens_of_good (List.forall_mem_append.mpr
        ⟨hbefore, List.forall_mem_cons.mpr ⟨hnumber, hafter⟩⟩)
      exact ⟨program, congrArg Traced.result hread⟩
  · intro negative e value hdecimal he
    obtain ⟨hvalue, p, hp, hread⟩ := Numeral.exists_read?_of_isDecimal hdecimal he
    refine ⟨_, ?_, result_ofTokens_number hread, hp.isRounding hvalue negative, ?_⟩
    · simp only [Symbol.ofToken, hread]
    · intro text' negative' e' value' hdecimal' he' hle
      obtain ⟨hvalue', p', hp', hread'⟩ := Numeral.exists_read?_of_isDecimal hdecimal' he'
      exact ⟨_, result_ofTokens_number hread', hp.toRat_mono hp' hvalue hvalue' hle⟩

/-- Halfway between two floats the even one is taken, and a digit more decides it. -/
example :
    (ofTokens ∅ [(⟨.number, "9007199254740993"⟩ : Token)]).result =
        .ok [.value (toFloat false 0x4340000000000000)] ∧
      (ofTokens ∅ [(⟨.number, "+9007199254740993.0001"⟩ : Token)]).result =
        .ok [.value (toFloat false 0x4340000000000001)] ∧
      (ofTokens ∅ [(⟨.number, "1..2"⟩ : Token)]).result = .error (.meaningless "1..2") := by
  decide +kernel

end Postfix

end InfixCalculator
