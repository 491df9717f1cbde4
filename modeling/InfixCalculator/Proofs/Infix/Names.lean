import InfixCalculator.Proofs.Postfix.Meanings
import InfixCalculator.Proofs.Token.Separation

/-!
# The names in an expression

An expression looks at a table only where one of its names stands there. So it has one value, or one
fault, and one list of records in all tables that agree on its names; and since every name that is
cut out of a text has the shape of an identifier, an entry with any other name is never looked at.

* `Session.evaluate_congr`: tables that agree on the names of an expression.
* `Session.evaluate_insert`, `Session.evaluate_erase`: entries that are none of its names.
* `Token.isName_of_mem_tokenize`: the shape of a name in a text.
* `Session.evaluate_name`: the value of a name that stands alone.
-/

namespace InfixCalculator

open Postfix

/-! ## Names in a text -/

namespace Token

theorem isName_of_mem_tokenize {text name : String} (h : ⟨.identifier, name⟩ ∈ tokenize text) :
    isName name.toList := by
  rcases isOperand_or_isSign_of_mem_tokenize h with hoperand | ⟨op, hsign⟩ | hsign | hsign
  · exact hoperand
  · cases hsign
  · cases hsign
  · cases hsign

/-- A text that has the shape of a name is one token. -/
theorem tokenize_of_isName {name : String} (h : isName name.toList) :
    tokenize name = [⟨.identifier, name⟩] := @tokenize_text ⟨.identifier, name⟩ (.inl h)

end Token

/-! ## Tables that agree on the names of an expression -/

namespace Session

variable {s s' : Session} {expression name : String}

/-- An expression depends on a table only through the names in it. -/
theorem evaluate_congr
    (h : ∀ name, ⟨.identifier, name⟩ ∈ Token.tokenize expression → s.table[name]? = s'.table[name]?) :
    s.evaluate expression = s'.evaluate expression := by
  have hmeaning : ∀ t ∈ Token.tokenize expression,
      Symbol.ofToken s.table t = Symbol.ofToken s'.table t := by
    intro t ht
    refine ofToken_congr fun hkind => h t.text ?_
    rwa [← hkind]
  have hprogram : ofTokens s.table (Token.tokenize expression) =
      ofTokens s'.table (Token.tokenize expression) := ofTokensFrom_congr hmeaning Yard.empty
  simp only [evaluate, hprogram]

/-- So an entry with a name that is not in an expression has no part in its value. -/
theorem evaluate_congr_of_not_mem (h : ⟨.identifier, name⟩ ∉ Token.tokenize expression)
    (hother : ∀ other, name ≠ other → s.table[other]? = s'.table[other]?) :
    s.evaluate expression = s'.evaluate expression := by
  refine evaluate_congr fun other hmem => hother other ?_
  rintro rfl
  exact h hmem

/-- To bind a name that is not in an expression does not change what the expression gives. -/
theorem evaluate_insert (h : ⟨.identifier, name⟩ ∉ Token.tokenize expression) (s : Session)
    (x : Float) : (⟨s.table.insert name x⟩ : Session).evaluate expression = s.evaluate expression :=
  evaluate_congr_of_not_mem h fun other hne => by
    simp only [Std.ExtTreeMap.getElem?_insert, Std.compare_eq_iff_eq, hne, if_false]

/-- Neither does it to forget one. -/
theorem evaluate_erase (h : ⟨.identifier, name⟩ ∉ Token.tokenize expression) (s : Session) :
    (⟨s.table.erase name⟩ : Session).evaluate expression = s.evaluate expression :=
  evaluate_congr_of_not_mem h fun other hne => by
    simp only [Std.ExtTreeMap.getElem?_erase, Std.compare_eq_iff_eq, hne, if_false]

/-- A name that stands alone has the value to which it is bound. -/
theorem evaluate_name {x : Float} (hname : Token.isName name.toList) (h : s.table[name]? = some x) :
    (s.evaluate name).result = .ok x := by
  have hmeaning : meanings s.table [⟨.identifier, name⟩] = .ok [.value x] := by
    rw [meanings_eq_ok_iff]
    simp [Symbol.ofToken, h]
  rw [result_evaluate, Token.tokenize_of_isName hname, hmeaning]
  rfl

end Session

end InfixCalculator
