import InfixCalculator.Proofs.Postfix.Frame
import InfixCalculator.Proofs.Token.Separation

/-!
# A name stands for its expression

A complete expression between parentheses may be replaced by a name that is bound to its value, in
any text, also one that is no expression at all: the value, or the fault, stays the same.

* `run_ofSymbols`: the program of a complete expression pushes its value on any stack.
* `tokenize_group`, `tokenize_name`: how the two texts are cut into tokens.
* `evaluate_substitute`: the two texts have one result.
-/

namespace InfixCalculator

open Postfix

/-! ## The program of a complete expression -/

namespace Postfix

theorem countP_item? (symbols : List Symbol) :
    (symbols.filterMap Symbol.item?).countP Item.isOperator
        = (symbols.map Symbol.role).count .operator ∧
      (symbols.filterMap Symbol.item?).countP (!·.isOperator)
        = (symbols.map Symbol.role).count .operand := by
  induction symbols with
  | nil => exact ⟨rfl, rfl⟩
  | cons symbol symbols ih =>
    obtain ⟨hoperators, hvalues⟩ := ih
    rw [List.map_cons, List.count_cons, List.count_cons, ← hoperators, ← hvalues]
    cases symbol with
    | value x =>
      have hitem : (Symbol.value x).item? = some (.value x) := rfl
      rw [List.filterMap_cons_some hitem, List.countP_cons, List.countP_cons]
      exact ⟨rfl, rfl⟩
    | operator op =>
      have hitem : (Symbol.operator op).item? = some (.operator op) := rfl
      rw [List.filterMap_cons_some hitem, List.countP_cons, List.countP_cons]
      exact ⟨rfl, rfl⟩
    | opening =>
      have hitem : Symbol.opening.item? = none := rfl
      rw [List.filterMap_cons_none hitem]
      exact ⟨rfl, rfl⟩
    | closing =>
      have hitem : Symbol.closing.item? = none := rfl
      rw [List.filterMap_cons_none hitem]
      exact ⟨rfl, rfl⟩

/-- A complete expression that has a value leaves it alone on the stack, so it pushes it on any
other stack as well. -/
theorem run_ofSymbols {symbols : List Symbol} {v : Float}
    (hcomplete : Role.Complete (symbols.map Symbol.role))
    (hvalue : result (ofSymbols symbols) = .ok v) (stack : List Float) :
    run (ofSymbols symbols) stack = .ok (v :: stack) := by
  obtain ⟨hoperators, hvalues⟩ := countP_item? symbols
  have hperm := ofSymbols_perm symbols
  rw [← hperm.countP_eq] at hoperators hvalues
  cases hrun : run (ofSymbols symbols) [] with
  | error fault =>
    rw [result, hrun] at hvalue
    cases hvalue
  | ok slots =>
    have hlength := length_of_run hrun
    have hcount := hcomplete.count
    match slots, hrun, hlength with
    | [], hrun, hlength =>
      rw [result, hrun] at hvalue
      cases hvalue
    | [x], hrun, hlength =>
      rw [result, hrun] at hvalue
      cases hvalue
      exact run_append_stack hrun stack
    | _ :: _ :: rest, hrun, hlength =>
      simp only [List.length_cons, List.length_nil] at hlength
      omega

/-- A part of a program may be replaced by the value that it pushes. -/
theorem result_replace {part : List Item} {v : Float}
    (h : ∀ stack, run part stack = .ok (v :: stack)) (items items' : List Item) :
    result (items ++ part ++ items') = result (items ++ [.value v] ++ items') := by
  have hrun : run (items ++ part ++ items') [] = run (items ++ [.value v] ++ items') [] := by
    rw [run_append, run_append, run_append, run_append]
    cases run items [] with
    | error fault => rfl
    | ok stack => exact congrArg (Except.bind · (run items')) (h stack)
  rw [result, result, hrun]

theorem ofToken_insert {table : Variables} {t : Token} {x : String} (h : t ≠ ⟨.identifier, x⟩)
    (v : Float) : Symbol.ofToken (table.insert x v) t = Symbol.ofToken table t := by
  refine ofToken_congr fun hkind => ?_
  have hne : x ≠ t.text := by
    rintro rfl
    exact h (by rw [← hkind])
  simp only [Std.ExtTreeMap.getElem?_insert, Std.compare_eq_iff_eq, hne, if_false]

end Postfix

/-! ## The two texts -/

namespace Token

theorem tokenizeChars_blank (cs : List Char) : tokenizeChars (' ' :: cs) = tokenizeChars cs :=
  tokenizeChars_gap_append (g := [' ']) (by decide) cs

theorem stops_blank (cs : List Char) : Stops (' ' :: cs) := stops_cons (by decide) (by decide) cs

theorem tokenizeChars_sign {t : Token} (h : t.IsSign) (cs : List Char) :
    tokenizeChars (t.text.toList ++ cs) = t :: tokenizeChars cs :=
  tokenizeChars_word_append (h.longest cs)

theorem tokenize_group (before e after : String) :
    tokenize (before ++ " (" ++ e ++ ") " ++ after) =
      tokenize before ++ opening :: (tokenize e ++ closing :: tokenize after) := by
  have htext : (before ++ " (" ++ e ++ ") " ++ after).toList =
      before.toList ++ ' ' :: (opening.text.toList ++
        (e.toList ++ (closing.text.toList ++ ' ' :: after.toList))) := by
    simp [opening, closing]
  simp only [tokenize]
  rw [htext, tokenizeChars_append _ (stops_blank _), tokenizeChars_blank,
    tokenizeChars_sign (.inr (.inl rfl)),
    tokenizeChars_append _ (IsSign.stops (.inr (.inr rfl)) _),
    tokenizeChars_sign (.inr (.inr rfl)), tokenizeChars_blank]

theorem tokenize_name {x : String} (hx : isName x.toList) (before after : String) :
    tokenize (before ++ " " ++ x ++ " " ++ after) =
      tokenize before ++ ⟨.identifier, x⟩ :: tokenize after := by
  have htext : (before ++ " " ++ x ++ " " ++ after).toList =
      before.toList ++ ' ' :: (x.toList ++ ' ' :: after.toList) := by simp
  have hword : Longest .identifier x.toList (' ' :: after.toList) := .name hx (stops_blank _).1
  simp only [tokenize]
  rw [htext, tokenizeChars_append _ (stops_blank _), tokenizeChars_blank,
    tokenizeChars_word_append (t := ⟨.identifier, x⟩) hword, tokenizeChars_blank]

end Token

/-! ## Substitution -/

/-- A complete expression in parentheses has the meaning of a name bound to its value, whatever
stands before and after it, as long as the name does not stand there too. -/
theorem evaluate_substitute {s : Session} {before e after x : String} {v : Float}
    (hcomplete : Role.Complete ((Token.tokenize e).filterMap Token.role?))
    (hvalue : (s.evaluate e).result = .ok v) (hx : Token.isName x.toList)
    (hbefore : ⟨.identifier, x⟩ ∉ Token.tokenize before)
    (hafter : ⟨.identifier, x⟩ ∉ Token.tokenize after) :
    (s.evaluate (before ++ " (" ++ e ++ ") " ++ after)).result =
      ((⟨s.table.insert x v⟩ : Session).evaluate (before ++ " " ++ x ++ " " ++ after)).result := by
  have hname : Symbol.ofToken (s.table.insert x v) ⟨.identifier, x⟩ = .ok (.value v) := by
    simp [Symbol.ofToken]
  have hold : ∀ {ts : List Token}, ⟨.identifier, x⟩ ∉ ts →
      meanings (s.table.insert x v) ts = meanings s.table ts := fun hts =>
    meanings_congr fun t ht => ofToken_insert (fun heq => hts (heq ▸ ht)) v
  rw [Session.result_evaluate] at hvalue
  rw [Session.result_evaluate, Session.result_evaluate, Token.tokenize_group, Token.tokenize_name hx]
  simp only [meanings_append, meanings_cons, hname, hold hbefore, hold hafter]
  cases meanings s.table (Token.tokenize before) with
  | error fault => rfl
  | ok symbols =>
    cases he : meanings s.table (Token.tokenize e) with
    | error fault =>
      rw [he] at hvalue
      cases hvalue
    | ok inner =>
      rw [he] at hvalue
      rw [filterMap_role?_of_meanings he] at hcomplete
      cases meanings s.table (Token.tokenize after) with
      | error fault => rfl
      | ok symbols' =>
        obtain ⟨items, items', hgroup, hvalue'⟩ :=
          ofSymbols_group hcomplete.balanced symbols symbols'
        show result (ofSymbols (symbols ++ .opening :: (inner ++ .closing :: symbols'))) =
          result (ofSymbols (symbols ++ .value v :: symbols'))
        rw [hgroup, hvalue' v]
        exact result_replace (run_ofSymbols hcomplete hvalue) items items'

theorem evaluate_substitute_unbalanced :
    ((⟨(∅ : Variables).insert "b" 3⟩ : Session).evaluate
        (") 2 ^ b -" ++ " (" ++ "1 + b" ++ ") " ++ "* ((")).result =
      ((⟨((∅ : Variables).insert "b" 3).insert "y" 4⟩ : Session).evaluate
        (") 2 ^ b -" ++ " " ++ "y" ++ " " ++ "* ((")).result := by
  have htokens : Token.tokenize "1 + b" =
      [⟨.number, "1"⟩, Token.ofOperator .add, ⟨.identifier, "b"⟩] := by decide +kernel
  refine evaluate_substitute (s := ⟨(∅ : Variables).insert "b" 3⟩) ?_ ?_ rfl ?_ ?_
  · rw [htokens]
    exact ⟨rfl, rfl⟩
  · decide +kernel
  · decide +kernel
  · decide +kernel

end InfixCalculator
