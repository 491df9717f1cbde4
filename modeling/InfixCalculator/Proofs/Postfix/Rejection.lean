import InfixCalculator.Proofs.Postfix.Meanings
import Mathlib.Data.List.Basic

/-!
# Rejected tokens

Reading a list of tokens can fail in one way only: a token means nothing. Which token that is does
not depend on the yard, and nothing after it is looked at.

* `Token.IsBad`: the tokens that mean nothing, told by their kind and their text.
* `ofToken_of_isBad`, `exists_ofToken_of_not_isBad`: a token is rejected exactly if it is bad.
* `ofTokensFrom_append`: tokens that mean something are noted and taken, whatever the yard holds.
* `ofTokens_reject_first_bad`: reading ends with the first bad token, and with its fault.
-/

namespace InfixCalculator

/-! ## Bad tokens -/

namespace Token

/-- A number that is no numeral, a name that is not bound, an operator that is none of the five, and
a punctuation that is no parenthesis. -/
def IsBad (table : Variables) (t : Token) : Prop :=
  match t.kind with
  | .number => Numeral.read? t.text = none
  | .identifier => t.text ∉ table
  | .operator => t.text ∉ ["+", "-", "*", "/", "^"]
  | .punctuation => t.text ∉ ["(", ")"]

/-- What a token is to blame for if it is bad: a name is not bound, any other text is meaningless. -/
def blame (t : Token) : Fault :=
  match t.kind with
  | .identifier => .unbound t.text
  | _ => .meaningless t.text

/-- The record that is written before a token is handled. -/
def record (t : Token) : Journal.Record :=
  ⟨.trace, "shunting " ++ t.kind.name ++ " '" ++ t.text ++ "'"⟩

end Token

theorem Operator.exists_ofSymbol?_iff {text : String} :
    (∃ op, ofSymbol? text = some op) ↔ text ∈ ["+", "-", "*", "/", "^"] := by
  have hsymbols : (["+", "-", "*", "/", "^"] : List String) = all.map symbol := by decide
  rw [hsymbols, List.mem_map]
  refine exists_congr fun op => ?_
  rw [ofSymbol?_eq_some_iff, and_iff_right op.mem_all, eq_comm]

namespace Postfix

variable {table : Variables} {t : Token}

/-- A bad token is rejected, with the fault it is to blame for. -/
theorem ofToken_of_isBad (h : t.IsBad table) : Symbol.ofToken table t = .error t.blame := by
  obtain ⟨kind, text⟩ := t
  cases kind with
  | number =>
    have hread : Numeral.read? text = none := h
    simp only [Symbol.ofToken, hread, Token.blame]
  | identifier =>
    have hlookup : table[text]? = none := Std.ExtTreeMap.getElem?_eq_none h
    simp only [Symbol.ofToken, hlookup, Token.blame]
  | operator =>
    have hsymbol : Operator.ofSymbol? text = none :=
      Option.eq_none_iff_forall_ne_some.mpr fun op hop => h (Operator.exists_ofSymbol?_iff.mp ⟨op, hop⟩)
    simp only [Symbol.ofToken, hsymbol, Token.blame]
  | punctuation =>
    have hopening : text ≠ "(" := fun heq => h (List.mem_pair.mpr (.inl heq))
    have hclosing : text ≠ ")" := fun heq => h (List.mem_pair.mpr (.inr heq))
    simp only [Symbol.ofToken, if_neg hopening, if_neg hclosing, Token.blame]

/-- Every other token means something. -/
theorem exists_ofToken_of_not_isBad (h : ¬ t.IsBad table) :
    ∃ symbol, Symbol.ofToken table t = .ok symbol := by
  obtain ⟨kind, text⟩ := t
  cases kind with
  | number =>
    obtain ⟨x, hx⟩ := Option.ne_none_iff_exists'.mp h
    exact ⟨.value x, by simp only [Symbol.ofToken, hx]⟩
  | identifier =>
    have hmem : text ∈ table := not_not.mp h
    have hlookup := Std.ExtTreeMap.getElem?_eq_some_getElem hmem
    exact ⟨.value table[text], by simp only [Symbol.ofToken, hlookup]⟩
  | operator =>
    obtain ⟨op, hop⟩ := Operator.exists_ofSymbol?_iff.mpr (not_not.mp h)
    exact ⟨.operator op, by simp only [Symbol.ofToken, hop]⟩
  | punctuation =>
    have hmem : text ∈ ["(", ")"] := not_not.mp h
    rcases List.mem_pair.mp hmem with rfl | rfl
    · exact ⟨.opening, rfl⟩
    · exact ⟨.closing, rfl⟩

/-! ## Reading -/

/-- A token that means something is noted and taken. -/
theorem ofTokensFrom_cons_of_ok {symbol : Symbol} (h : Symbol.ofToken table t = .ok symbol)
    (ts : List Token) (yard : Yard) :
    ofTokensFrom table (t :: ts) yard =
      ⟨(ofTokensFrom table ts (yard.take symbol)).result,
        t.record :: (ofTokensFrom table ts (yard.take symbol)).log⟩ := by
  rw [ofTokensFrom_of_some (t := t) rfl, h]
  rfl

/-- A token that means nothing is noted, and reading ends with its fault. -/
theorem ofTokensFrom_cons_of_error {fault : Fault} (h : Symbol.ofToken table t = .error fault)
    (ts : List Token) (yard : Yard) :
    ofTokensFrom table (t :: ts) yard = ⟨.error fault, [t.record]⟩ := by
  rw [ofTokensFrom_of_some (t := t) rfl, h]
  rfl

/-- Tokens that mean something are noted and taken one by one, whatever the yard holds; what comes
after them is read in the yard that they leave. -/
theorem ofTokensFrom_append {ts : List Token} {symbols : List Symbol}
    (h : meanings table ts = .ok symbols) (us : List Token) (yard : Yard) :
    ofTokensFrom table (ts ++ us) yard =
      ⟨(ofTokensFrom table us (symbols.foldl Yard.take yard)).result,
        ts.map Token.record ++ (ofTokensFrom table us (symbols.foldl Yard.take yard)).log⟩ := by
  rw [meanings_eq_ok_iff] at h
  induction ts generalizing symbols yard with
  | nil =>
    rw [List.map_eq_nil_iff.mp h.symm]
    rfl
  | cons t ts ih =>
    obtain ⟨symbol, rest, rfl, ht, hts⟩ := List.map_eq_cons_iff.mp h.symm
    rw [List.cons_append, ofTokensFrom_cons_of_ok ht.symm, ih hts.symm]
    rfl

/-- Tokens none of which is bad have a program, and each of them has its record. -/
theorem ofTokens_of_good {ts : List Token} (h : ∀ t ∈ ts, ¬ t.IsBad table) :
    ∃ program, ofTokens table ts = ⟨.ok program, ts.map Token.record⟩ := by
  obtain ⟨symbols, hsymbols⟩ := exists_meanings fun t ht => exists_ofToken_of_not_isBad (h t ht)
  have hend : ∀ yard : Yard, ofTokensFrom table ([] : List Token) yard = pure yard.program :=
    ofTokensFrom_of_none rfl
  have hread := ofTokensFrom_append hsymbols [] Yard.empty
  rw [hend, List.append_nil, Traced.log_pure, List.append_nil] at hread
  exact ⟨(symbols.foldl Yard.take Yard.empty).program, hread⟩

/-- Reading ends with the first bad token, whatever comes after it. -/
theorem ofTokens_of_first_bad {before : List Token} (hbefore : ∀ u ∈ before, ¬ u.IsBad table)
    (hbad : t.IsBad table) (rest : List Token) :
    ofTokens table (before ++ t :: rest) =
      ⟨.error t.blame, (before ++ [t]).map Token.record⟩ := by
  obtain ⟨symbols, hsymbols⟩ :=
    exists_meanings fun u hu => exists_ofToken_of_not_isBad (hbefore u hu)
  have hread := ofTokensFrom_append hsymbols (t :: rest) Yard.empty
  rw [ofTokensFrom_cons_of_error (ofToken_of_isBad hbad)] at hread
  rw [List.map_append]
  exact hread

/-- A list with a bad token in it splits at the first one. -/
theorem exists_first_bad {ts : List Token} (h : ∃ t ∈ ts, t.IsBad table) :
    ∃ before t after, ts = before ++ t :: after ∧ (∀ u ∈ before, ¬ u.IsBad table) ∧
      t.IsBad table := by
  induction ts with
  | nil =>
    obtain ⟨t, ht, -⟩ := h
    cases ht
  | cons t ts ih =>
    by_cases hbad : t.IsBad table
    · exact ⟨[], t, ts, rfl, nofun, hbad⟩
    · obtain ⟨u, hu, hubad⟩ := h
      have hne : u ≠ t := by
        rintro rfl
        exact hbad hubad
      have hmem : u ∈ ts := List.mem_of_ne_of_mem hne hu
      obtain ⟨before, v, after, rfl, hbefore, hv⟩ := ih ⟨u, hmem, hubad⟩
      exact ⟨t :: before, v, after, rfl, List.forall_mem_cons.mpr ⟨hbad, hbefore⟩, hv⟩

/-- A list of tokens has a program exactly if none of them is bad, and then all of them are on
record. Otherwise reading ends with the first bad token: the fault is the one that it is to blame
for, and the records are those of the tokens up to it, whatever comes after. -/
theorem ofTokens_reject_first_bad (table : Variables) (ts : List Token) :
    ((∃ program, (ofTokens table ts).result = .ok program) ↔ ∀ t ∈ ts, ¬ t.IsBad table) ∧
    ((∀ t ∈ ts, ¬ t.IsBad table) → (ofTokens table ts).log = ts.map Token.record) ∧
    ((∃ t ∈ ts, t.IsBad table) →
      ∃ before t after, ts = before ++ t :: after ∧ (∀ u ∈ before, ¬ u.IsBad table) ∧
        t.IsBad table ∧
        ∀ rest, ofTokens table (before ++ t :: rest) =
          ⟨.error t.blame, (before ++ [t]).map Token.record⟩) := by
  refine ⟨⟨?_, ?_⟩, ?_, ?_⟩
  · intro h
    obtain ⟨program, hprogram⟩ := h
    by_contra hbad
    push Not at hbad
    obtain ⟨before, t, after, rfl, hbefore, ht⟩ := exists_first_bad hbad
    rw [ofTokens_of_first_bad hbefore ht] at hprogram
    cases hprogram
  · intro hgood
    obtain ⟨program, hread⟩ := ofTokens_of_good hgood
    exact ⟨program, congrArg Traced.result hread⟩
  · intro hgood
    obtain ⟨program, hread⟩ := ofTokens_of_good hgood
    exact congrArg Traced.log hread
  · intro hbad
    obtain ⟨before, t, after, hsplit, hbefore, ht⟩ := exists_first_bad hbad
    exact ⟨before, t, after, hsplit, hbefore, ht, ofTokens_of_first_bad hbefore ht⟩

end Postfix

end InfixCalculator
