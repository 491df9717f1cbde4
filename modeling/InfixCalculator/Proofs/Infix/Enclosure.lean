import InfixCalculator.Proofs.Infix.Printed
import InfixCalculator.Proofs.Infix.Substitution

/-!
# Parentheses at the two ends

Opening parentheses before a list of tokens and closing ones after it change nothing, however many
they are and whatever the list is. So a list whose parentheses do not match has the program that it
has when it is balanced at its two ends, by an opening parenthesis for each closing one without a
partner and a closing one for each that is left open.

* `Role.strays`, `Role.unclosed`: how many parentheses of a list have no partner.
* `Role.nesting_enclosed_iff`: which parentheses at the two ends balance a list.
* `Yard.exists_take_onto_parens`: parentheses at the bottom of a stack are eaten up by closing ones
  and have no other part in what a yard does.
* `ofSymbols_enclosed`, `tokenize_enclosed`: the program and the text of an enclosed list.
* `ofTokens_enclosed`: lists and texts between parentheses.
-/

namespace InfixCalculator

open Postfix

/-! ## Parentheses without a partner -/

namespace Role

/-- The closing parentheses that find none open, with so many open before the list. -/
def strays : Nat → List Role → Nat
  | _, [] => 0
  | depth, opening :: rs => strays (depth + 1) rs
  | 0, closing :: rs => strays 0 rs + 1
  | depth + 1, closing :: rs => strays depth rs
  | depth, _ :: rs => strays depth rs

/-- The parentheses left open at the end, with so many open before the list. -/
def unclosed : Nat → List Role → Nat
  | depth, [] => depth
  | depth, opening :: rs => unclosed (depth + 1) rs
  | depth, closing :: rs => unclosed (depth - 1) rs
  | depth, _ :: rs => unclosed depth rs

/-- Every stray parenthesis closes one of the spare ones that are open outside, and what is left of
those stays open. -/
theorem nesting_add (rs : List Role) (depth spare : Nat) :
    nesting (depth + spare) rs =
      if strays depth rs ≤ spare then some (unclosed depth rs + (spare - strays depth rs))
      else none := by
  induction rs generalizing depth spare with
  | nil => rw [nesting, strays, unclosed, if_pos (Nat.zero_le spare), Nat.sub_zero]
  | cons r rs ih =>
    cases r with
    | operand => exact ih depth spare
    | operator => exact ih depth spare
    | opening =>
      rw [nesting, strays, unclosed, Nat.add_right_comm]
      exact ih (depth + 1) spare
    | closing =>
      cases depth with
      | succ depth =>
        rw [Nat.add_right_comm, nesting, strays, unclosed, Nat.add_sub_cancel]
        exact ih depth spare
      | zero =>
        cases spare with
        | zero => rw [Nat.add_zero, nesting, strays, if_neg (Nat.not_succ_le_zero _)]
        | succ spare =>
          have hrest := ih 0 spare
          rw [Nat.zero_add] at hrest ⊢
          simp only [nesting, strays, unclosed, hrest, Nat.zero_sub, Nat.add_le_add_iff_right,
            Nat.add_sub_add_right]

theorem nesting_append (rs rs' : List Role) (depth : Nat) :
    nesting depth (rs ++ rs') = (nesting depth rs).bind fun depth => nesting depth rs' := by
  induction rs generalizing depth with
  | nil => rfl
  | cons r rs ih =>
    cases r with
    | operand => exact ih depth
    | operator => exact ih depth
    | opening => exact ih (depth + 1)
    | closing =>
      cases depth with
      | zero => rfl
      | succ depth => exact ih depth

theorem nesting_replicate_opening (count depth : Nat) :
    nesting depth (List.replicate count opening) = some (depth + count) := by
  induction count generalizing depth with
  | zero => rfl
  | succ count ih =>
    rw [List.replicate_succ, nesting, ih, Nat.add_right_comm]
    rfl

theorem nesting_replicate_closing_eq_zero_iff (count depth : Nat) :
    nesting depth (List.replicate count closing) = some 0 ↔ depth = count := by
  induction count generalizing depth with
  | zero => simp [nesting]
  | succ count ih =>
    cases depth with
    | zero => simp [List.replicate_succ, nesting]
    | succ depth =>
      rw [List.replicate_succ, nesting, ih, Nat.add_right_cancel_iff]

/-- At least one opening parenthesis for each stray one balances a list, together with a closing one
for each that is open then. -/
theorem nesting_enclosed_iff (rs : List Role) (before after : Nat) :
    nesting 0 (List.replicate before opening ++ rs ++ List.replicate after closing) = some 0 ↔
      strays 0 rs ≤ before ∧ unclosed 0 rs + (before - strays 0 rs) = after := by
  rw [nesting_append, nesting_append, nesting_replicate_opening, Option.bind_some, nesting_add]
  by_cases hspare : strays 0 rs ≤ before
  · rw [if_pos hspare, Option.bind_some, nesting_replicate_closing_eq_zero_iff]
    exact (and_iff_right hspare).symm
  · rw [if_neg hspare]
    exact iff_of_false nofun fun h => hspare h.1

end Role

/-! ## Parentheses at the bottom of a stack -/

namespace Postfix

namespace Yard

theorem program_foldl_closing (count : Nat) (y : Yard) :
    ((List.replicate count Symbol.closing).foldl take y).program = y.program := by
  induction count generalizing y with
  | zero => rfl
  | succ count ih => rw [List.replicate_succ, List.foldl_cons, ih, program_take_closing]

/-- A yard in which some parentheses are open and nothing else was taken. -/
def parens (count : Nat) : Yard := ⟨#[], List.replicate count .paren⟩

theorem foldl_opening (count : Nat) (y : Yard) :
    (List.replicate count Symbol.opening).foldl take y =
      ⟨y.output, List.replicate count .paren ++ y.stack⟩ := by
  induction count generalizing y with
  | zero => rfl
  | succ count ih =>
    rw [List.replicate_succ, List.foldl_cons, ih, output_opening, stack_opening,
      List.replicate_succ', List.append_assoc]
    rfl

theorem program_onto_parens (y : Yard) (count : Nat) : (y.onto (parens count)).program = y.program := by
  have hitems : Pending.items (List.replicate count .paren) = [] := by
    rw [Pending.items, List.filterMap_replicate_of_none rfl, List.map_nil]
  simp [program, onto, parens, Pending.items_append, hitems]

/-- On top of open parentheses a symbol does what it does without them. A closing parenthesis that
finds none of its own open takes one of them away. -/
theorem exists_take_onto_parens (y : Yard) (symbol : Symbol) (count : Nat) :
    ∃ count', (y.onto (parens count)).take symbol = (y.take symbol).onto (parens count') := by
  have hbase : ∀ top ∈ (parens count).stack.head?, top = .paren := fun top htop =>
    List.eq_of_mem_replicate (List.mem_of_mem_head? htop)
  by_cases hown : symbol = .closing → .paren ∈ y.stack ∨ (parens count).stack = []
  · exact ⟨count, take_onto hbase hown⟩
  · obtain ⟨rfl, hnone, hne⟩ : symbol = .closing ∧ .paren ∉ y.stack ∧ (parens count).stack ≠ [] := by
      simpa using hown
    have habove : ∀ entry ∈ y.stack, entry ≠ .paren := fun entry hentry heq => hnone (heq ▸ hentry)
    have hstack : y.stack = y.stack ++ [] := (List.append_nil _).symm
    have hbelow : ∀ entry ∈ ([] : List Pending).head?, entry = .paren := nofun
    refine ⟨count - 1, eq_of_toList_eq ?_ ?_⟩
    · rw [output_closing rfl habove hbase]
      simp [onto, parens, output_closing hstack habove hbelow]
    · rw [stack_closing rfl habove hbase]
      simp [onto, parens, stack_closing hstack habove hbelow]

theorem exists_foldl_onto_parens (symbols : List Symbol) (y : Yard) (count : Nat) :
    ∃ count', symbols.foldl take (y.onto (parens count)) =
      (symbols.foldl take y).onto (parens count') := by
  induction symbols generalizing y count with
  | nil => exact ⟨count, rfl⟩
  | cons symbol symbols ih =>
    obtain ⟨count', htake⟩ := y.exists_take_onto_parens symbol count
    rw [List.foldl_cons, List.foldl_cons, htake]
    exact ih (y.take symbol) count'

end Yard

/-- Parentheses at the two ends of a list do not show in its program. -/
theorem ofSymbols_enclosed (symbols : List Symbol) (before after : Nat) :
    ofSymbols (List.replicate before .opening ++ symbols ++ List.replicate after .closing) =
      ofSymbols symbols := by
  have hopen : (List.replicate before Symbol.opening).foldl Yard.take Yard.empty =
      Yard.empty.onto (Yard.parens before) :=
    (Yard.foldl_opening before Yard.empty).trans
      (Yard.eq_of_toList_eq (by simp [Yard.onto, Yard.parens, Yard.empty])
        (by simp [Yard.onto, Yard.parens, Yard.empty]))
  obtain ⟨count, hsymbols⟩ := Yard.exists_foldl_onto_parens symbols Yard.empty before
  rw [ofSymbols, List.foldl_append, List.foldl_append, Yard.program_foldl_closing, hopen, hsymbols,
    Yard.program_onto_parens]
  rfl

theorem meanings_replicate {table : Variables} {t : Token} {symbol : Symbol}
    (h : Symbol.ofToken table t = .ok symbol) (count : Nat) :
    meanings table (List.replicate count t) = .ok (List.replicate count symbol) := by
  rw [meanings_eq_ok_iff, List.map_replicate, List.map_replicate, h]

end Postfix

/-! ## Tokens and texts -/

namespace Token

/-- A list of tokens between so many opening and closing parentheses. -/
def enclosed (before after : Nat) (ts : List Token) : List Token :=
  List.replicate before opening ++ ts ++ List.replicate after closing

/-- A list of tokens, balanced at its two ends. -/
def balanced (ts : List Token) : List Token :=
  enclosed (Role.strays 0 (ts.filterMap role?)) (Role.unclosed 0 (ts.filterMap role?)) ts

theorem filterMap_role?_enclosed (before after : Nat) (ts : List Token) :
    (enclosed before after ts).filterMap role? =
      List.replicate before .opening ++ ts.filterMap role? ++ List.replicate after .closing := by
  have hopening : opening.role? = some .opening := rfl
  have hclosing : closing.role? = some .closing := rfl
  rw [enclosed, List.filterMap_append, List.filterMap_append,
    List.filterMap_replicate_of_some hopening, List.filterMap_replicate_of_some hclosing]

theorem tokenizeChars_replicate {t : Token} (h : t.IsSign) {c : Char} (hc : t.text.toList = [c])
    (count : Nat) (cs : List Char) :
    tokenizeChars (List.replicate count c ++ cs) = List.replicate count t ++ tokenizeChars cs := by
  induction count with
  | zero => rfl
  | succ count ih =>
    have hsign := tokenizeChars_sign h (List.replicate count c ++ cs)
    rw [hc, ih] at hsign
    exact hsign

theorem tokenize_enclosed (before after : Nat) (text : String) :
    tokenize (String.ofList (List.replicate before '(') ++ text ++
        String.ofList (List.replicate after ')')) =
      enclosed before after (tokenize text) := by
  have hstops : Stops (List.replicate after ')') := by
    cases after with
    | zero => exact stops_nil
    | succ after => exact stops_cons (by decide) (by decide) _
  have hopening := tokenizeChars_replicate (t := opening) (c := '(') (.inr (.inl rfl)) rfl before
  have hclosing := tokenizeChars_replicate (t := closing) (c := ')') (.inr (.inr rfl)) rfl after []
  rw [List.append_nil, tokenizeChars_nil, List.append_nil] at hclosing
  simp only [tokenize, String.toList_append, String.toList_ofList, List.append_assoc]
  rw [hopening, tokenizeChars_append _ hstops, hclosing, enclosed, List.append_assoc]

end Token

open Token (enclosed balanced)

namespace Postfix

/-- Parentheses at the two ends change neither the program of a list of tokens nor its fault, and
neither the value of a text nor its fault. One opening parenthesis for each stray closing one and one
closing parenthesis for each left open are just what balances a list, so every list has the result
of its balanced form. -/
theorem ofTokens_enclosed (table : Variables) :
    (∀ (ts : List Token) (before after : Nat),
      (ofTokens table (enclosed before after ts)).result = (ofTokens table ts).result) ∧
    (∀ ts : List Token,
      (ofTokens table (balanced ts)).result = (ofTokens table ts).result ∧
      Role.nesting 0 ((balanced ts).filterMap Token.role?) = some 0 ∧
      ∀ before after, Role.nesting 0 ((enclosed before after ts).filterMap Token.role?) = some 0 →
        Role.strays 0 (ts.filterMap Token.role?) ≤ before ∧
          Role.unclosed 0 (ts.filterMap Token.role?) ≤ after) ∧
    ∀ (text : String) (before after : Nat),
      ((⟨table⟩ : Session).evaluate (String.ofList (List.replicate before '(') ++ text ++
        String.ofList (List.replicate after ')'))).result =
      ((⟨table⟩ : Session).evaluate text).result := by
  have htokens : ∀ (ts : List Token) (before after : Nat),
      (ofTokens table (enclosed before after ts)).result = (ofTokens table ts).result := by
    intro ts before after
    rw [result_ofTokens, result_ofTokens, enclosed, meanings_append, meanings_append,
      meanings_replicate ofToken_opening, meanings_replicate ofToken_closing]
    cases meanings table ts with
    | error fault => rfl
    | ok symbols => exact congrArg Except.ok (ofSymbols_enclosed symbols before after)
  refine ⟨htokens, ?_, ?_⟩
  · intro ts
    refine ⟨htokens ts _ _, ?_, ?_⟩
    · rw [balanced, Token.filterMap_role?_enclosed, Role.nesting_enclosed_iff]
      exact ⟨Nat.le_refl _, by omega⟩
    · intro before after h
      rw [Token.filterMap_role?_enclosed, Role.nesting_enclosed_iff] at h
      exact ⟨h.1, by omega⟩
  · intro text before after
    rw [Session.result_evaluate_eq_bind, Session.result_evaluate_eq_bind, Token.tokenize_enclosed,
      htokens]

example : balanced (Token.tokenize "3 + 4) * (2") = Token.tokenize "(3 + 4) * (2)" := by
  decide +kernel

end Postfix

end InfixCalculator
