import InfixCalculator.Proofs.Numeral.Plain
import InfixCalculator.Proofs.Postfix.Expression
import InfixCalculator.Proofs.Postfix.Meanings
import InfixCalculator.Proofs.Postfix.Yard

/-!
# Infix forms of an expression

An expression over operands has many infix forms: parentheses stand at least where the left
associative grammar needs them, and may stand around any part; between the tokens there may be any
characters that start no token. Whatever the form, its postfix program is the postorder of the
expression, and its value is the value of the expression.

* `Printed`: the token lists that print an expression.
* `Printed.takes`: a yard takes a printed expression in any surroundings that bind less tightly.
* `evaluate_printed`: text of a printed expression, from the tokens to the value.
-/

namespace InfixCalculator

open Postfix

/-! ## Printing -/

/-- The tokens print the expression, and its outermost operator has at least the given precedence or
stands in parentheses. A left operand needs them if it binds less tightly than its operator, a right
operand also if it binds as tightly; around any operand they may stand without need. -/
inductive Printed : Nat → Expression Token → List Token → Prop
  | leaf {p : Nat} {t : Token} (ht : t.IsOperand) : Printed p (.leaf t) [t]
  | node {p : Nat} {op : Operator} {left right : Expression Token} {ts us : List Token}
      (hp : p ≤ op.precedence) (hleft : Printed op.precedence left ts)
      (hright : Printed (op.precedence + 1) right us) :
      Printed p (.node op left right) (ts ++ Token.ofOperator op :: us)
  | paren {p : Nat} {e : Expression Token} {ts : List Token} (h : Printed 1 e ts) :
      Printed p e (Token.opening :: (ts ++ [Token.closing]))

namespace Printed

variable {p : Nat} {e : Expression Token} {ts : List Token}

theorem shape (h : Printed p e ts) : ∀ t ∈ ts, t.IsOperand ∨ t.IsSign := by
  induction h with
  | leaf ht =>
    intro t hmem
    rw [List.mem_singleton.mp hmem]
    exact .inl ht
  | node _ _ _ ihl ihr =>
    intro t hmem
    rcases List.mem_append.mp hmem with hmem | hmem
    · exact ihl t hmem
    · rcases List.mem_cons.mp hmem with rfl | hmem
      · exact .inr (.inl ⟨_, rfl⟩)
      · exact ihr t hmem
  | paren _ ih =>
    intro t hmem
    rcases List.mem_cons.mp hmem with rfl | hmem
    · exact .inr (.inr (.inl rfl))
    · rcases List.mem_append.mp hmem with hmem | hmem
      · exact ih t hmem
      · rw [List.mem_singleton.mp hmem]
        exact .inr (.inr (.inr rfl))

/-- A sign may stand between any two lists in which of two neighbours one is a sign. -/
theorem isChain_append_sign {t : Token} {ts us : List Token} (ht : t.IsSign)
    (hts : ts.IsChain fun t u => t.IsSign ∨ u.IsSign)
    (hus : us.IsChain fun t u => t.IsSign ∨ u.IsSign) :
    (ts ++ t :: us).IsChain fun t u => t.IsSign ∨ u.IsSign := by
  rw [List.isChain_append]
  refine ⟨hts, List.isChain_cons.mpr ⟨fun _ _ => .inl ht, hus⟩, ?_⟩
  rintro _ _ _ ⟨⟩
  exact .inr ht

theorem isChain (h : Printed p e ts) : ts.IsChain fun t u => t.IsSign ∨ u.IsSign := by
  induction h with
  | leaf _ => exact .singleton _
  | node _ _ _ ihl ihr => exact isChain_append_sign (.inl ⟨_, rfl⟩) ihl ihr
  | paren _ ih =>
    have hclosed := isChain_append_sign (t := Token.closing) (.inr (.inr rfl)) ih .nil
    exact List.isChain_cons.mpr ⟨fun _ _ => .inl (.inr (.inl rfl)), hclosed⟩

/-- The operands of a printed expression are its leaves, in order: a search that passes over signs
finds the same in both. -/
theorem find?_eq (h : Printed p e ts) {q : Token → Bool} (hq : ∀ t : Token, t.IsSign → q t = false) :
    ts.find? q = e.leaves.find? q := by
  induction h with
  | leaf _ => rfl
  | node _ _ _ ihl ihr =>
    rw [List.find?_append, List.find?_cons_of_neg (by simp [hq _ (.inl ⟨_, rfl⟩)]), ihl, ihr,
      ← List.find?_append]
    rfl
  | paren _ ih =>
    rw [List.find?_cons_of_neg (by simp [hq _ (.inr (.inl rfl))]), List.find?_append, ih,
      List.find?_cons_of_neg (by simp [hq _ (.inr (.inr rfl))]), List.find?_nil, Option.or_none]

end Printed

/-! ## The values of operands -/

/-- The value of an operand: a number is read, a name is looked up. -/
def operandValue? (table : Variables) (t : Token) : Option Float :=
  match t.kind with
  | .number => Numeral.read? t.text
  | .identifier => table[t.text]?
  | _ => none

/-- The token is a name to which nothing is bound. -/
def IsUnbound (table : Variables) (t : Token) : Prop := t.kind = .identifier ∧ t.text ∉ table

instance (table : Variables) (t : Token) : Decidable (IsUnbound table t) :=
  inferInstanceAs (Decidable (_ ∧ _))

variable {table : Variables}

@[simp] theorem ofToken_ofOperator (op : Operator) :
    Symbol.ofToken table (Token.ofOperator op) = .ok (.operator op) := by
  simp [Symbol.ofToken, Token.ofOperator]

@[simp] theorem ofToken_opening : Symbol.ofToken table Token.opening = .ok .opening := rfl

@[simp] theorem ofToken_closing : Symbol.ofToken table Token.closing = .ok .closing := rfl

theorem not_isUnbound_of_isSign {t : Token} (h : t.IsSign) : ¬ IsUnbound table t := by
  intro hunbound
  obtain ⟨hkind, -⟩ := hunbound
  rcases h with ⟨op, rfl⟩ | rfl | rfl
  · cases hkind
  · cases hkind
  · cases hkind

theorem ofToken_of_operandValue? {t : Token} {x : Float} (h : operandValue? table t = some x) :
    Symbol.ofToken table t = .ok (.value x) := by
  obtain ⟨kind, text⟩ := t
  cases kind with
  | number =>
    have hread : Numeral.read? text = some x := h
    simp [Symbol.ofToken, hread]
  | identifier =>
    have hlookup : table[text]? = some x := h
    simp [Symbol.ofToken, hlookup]
  | operator => cases h
  | punctuation => cases h

theorem exists_operandValue? {t : Token} (h : t.IsOperand) (hbound : ¬ IsUnbound table t) :
    ∃ x, operandValue? table t = some x := by
  obtain ⟨kind, text⟩ := t
  cases kind with
  | number => exact Numeral.exists_read?_of_isPlainNumber h
  | identifier =>
    have hmem : text ∈ table := by
      by_contra hmem
      exact hbound ⟨rfl, hmem⟩
    exact ⟨table[text], Std.ExtTreeMap.getElem?_eq_some_getElem hmem⟩
  | operator => cases h
  | punctuation => cases h

theorem ofToken_of_isUnbound {t : Token} (h : IsUnbound table t) :
    Symbol.ofToken table t = .error (.unbound t.text) := by
  obtain ⟨kind, text⟩ := t
  obtain ⟨rfl, hmem⟩ := h
  have hlookup : table[text]? = none := Std.ExtTreeMap.getElem?_eq_none hmem
  simp [Symbol.ofToken, hlookup]

/-- Apart from names to which nothing is bound, operands and signs mean something. -/
theorem exists_ofToken {t : Token} (h : t.IsOperand ∨ t.IsSign) (hbound : ¬ IsUnbound table t) :
    ∃ symbol, Symbol.ofToken table t = .ok symbol := by
  rcases h with hoperand | ⟨op, rfl⟩ | rfl | rfl
  · obtain ⟨x, hx⟩ := exists_operandValue? hoperand hbound
    exact ⟨_, ofToken_of_operandValue? hx⟩
  · exact ⟨_, ofToken_ofOperator op⟩
  · exact ⟨_, ofToken_opening⟩
  · exact ⟨_, ofToken_closing⟩

/-- The fault of operands and signs is that of the first name to which nothing is bound. -/
theorem meanings_of_find? {ts : List Token} {t : Token}
    (hshape : ∀ u ∈ ts, u.IsOperand ∨ u.IsSign)
    (hfind : ts.find? (fun t => decide (IsUnbound table t)) = some t) :
    meanings table ts = .error (.unbound t.text) := by
  have hunbound : IsUnbound table t := by simpa using List.find?_some hfind
  refine meanings_eq_error hfind (ofToken_of_isUnbound hunbound) fun u hmem hu => ?_
  exact exists_ofToken (hshape u hmem) (of_decide_eq_false hu)

theorem Printed.isOperand_of_mem_leaves {p : Nat} {e : Expression Token} {ts : List Token}
    (h : Printed p e ts) : ∀ t ∈ e.leaves, t.IsOperand := by
  induction h with
  | leaf ht =>
    intro t hmem
    rwa [List.mem_singleton.mp hmem]
  | node _ _ _ ihl ihr =>
    intro t hmem
    exact (List.mem_append.mp hmem).elim (ihl t) (ihr t)
  | paren _ ih => exact ih

/-! ## Taking a printed expression -/

/-- Taking the symbols in the yard adds `out` to its output and leaves `pending` waiting. -/
structure Takes (symbols : List Symbol) (y : Yard) (out : List Item) (pending : List Pending) :
    Prop where
  output : (symbols.foldl Yard.take y).output.toList = y.output.toList ++ out
  stack : (symbols.foldl Yard.take y).stack = pending ++ y.stack

/-- What waits after the left operand leaves before the operator, which then waits below what the
right operand leaves waiting. -/
theorem Takes.node {op : Operator} {symbols symbols' : List Symbol} {y : Yard}
    {out out' : List Item} {pending pending' : List Pending} (hleft : Takes symbols y out pending)
    (hpending : ∀ entry ∈ pending, op.precedence ≤ entry.rank)
    (htop : ∀ top ∈ y.stack.head?, top.rank < op.precedence)
    (hright : ∀ y' : Yard, y'.stack = .operator op :: y.stack → Takes symbols' y' out' pending') :
    Takes (symbols ++ .operator op :: symbols') y (out ++ Pending.items pending ++ out')
      (pending' ++ [.operator op]) := by
  have hstack := Yard.stack_operator hleft.stack hpending htop
  have hright := hright _ hstack
  constructor
  · rw [List.foldl_append, List.foldl_cons, hright.output,
      Yard.output_operator hleft.stack hpending htop, hleft.output]
    simp
  · rw [List.foldl_append, List.foldl_cons, hright.stack, hstack]
    simp

/-- What waits inside parentheses leaves before the closing one. -/
theorem Takes.paren {symbols : List Symbol} {y : Yard} {out : List Item} {pending : List Pending}
    (h : Takes symbols y.opening out pending) (hpending : ∀ entry ∈ pending, 1 ≤ entry.rank) :
    Takes (.opening :: (symbols ++ [.closing])) y (out ++ Pending.items pending) [] := by
  have hne : ∀ entry ∈ pending, entry ≠ .paren := fun entry hentry =>
    Pending.ne_paren_of_rank_pos (hpending entry hentry)
  have hparen : ∀ entry ∈ (y.opening.stack).head?, entry = .paren := by
    intro entry hfirst
    cases hfirst
    rfl
  constructor
  · rw [List.foldl_cons, List.foldl_append]
    refine (Yard.output_closing h.stack hne hparen).trans ?_
    rw [h.output, List.append_assoc]
    rfl
  · rw [List.foldl_cons, List.foldl_append]
    exact Yard.stack_closing h.stack hne hparen

/-- A printed expression is taken in any yard whose top binds less tightly than its outermost
operator may. What waits afterwards binds at least as tightly, and with the output makes up the
postorder. -/
theorem Printed.takes {p : Nat} {e : Expression Token} {ts : List Token} (h : Printed p e ts)
    {values : Expression Float} (hvalues : e.map (operandValue? table) = values.map some) :
    ∃ symbols, meanings table ts = .ok symbols ∧
      ∃ out pending, out ++ Pending.items pending = values.postorder ∧
        (∀ entry ∈ pending, p ≤ entry.rank) ∧
        ∀ y : Yard, (∀ top ∈ y.stack.head?, top.rank < p) → Takes symbols y out pending := by
  induction h generalizing values with
  | @leaf p t _ =>
    cases values with
    | node => cases hvalues
    | leaf x =>
      have hx : operandValue? table t = some x := Expression.leaf.inj hvalues
      refine ⟨[.value x], ?_, [.value x], [], rfl, nofun, fun y _ => ⟨?_, rfl⟩⟩
      · rw [meanings_cons, ofToken_of_operandValue? hx]
        rfl
      · exact Yard.output_value x
  | @node p op left right ts us hp _ _ ihl ihr =>
    cases values with
    | leaf => cases hvalues
    | node op' left' right' =>
      obtain ⟨rfl, hl, hr⟩ := Expression.node.inj hvalues
      obtain ⟨symbols, hts, out, pending, hout, hpending, htakes⟩ := ihl hl
      obtain ⟨symbols', hus, out', pending', hout', hpending', htakes'⟩ := ihr hr
      refine ⟨symbols ++ .operator op :: symbols', ?_, out ++ Pending.items pending ++ out',
        pending' ++ [.operator op], ?_, ?_, fun y htop => ?_⟩
      · rw [meanings_append, hts, meanings_cons, ofToken_ofOperator, hus]
        rfl
      · rw [Pending.items_append, ← List.append_assoc, List.append_assoc _ out', hout, hout']
        rfl
      · intro entry hentry
        rcases List.mem_append.mp hentry with hentry | hentry
        · have := hpending' entry hentry
          omega
        · rw [List.mem_singleton.mp hentry]
          exact hp
      · have htop' : ∀ top ∈ y.stack.head?, top.rank < op.precedence := fun top hmem =>
          Nat.lt_of_lt_of_le (htop top hmem) hp
        refine Takes.node (htakes y htop') hpending htop' fun y' hstack => htakes' y' ?_
        rw [hstack]
        intro top hfirst
        cases hfirst
        exact Nat.lt_succ_self _
  | @paren p e ts _ ih =>
    obtain ⟨symbols, hts, out, pending, hout, hpending, htakes⟩ := ih hvalues
    refine ⟨.opening :: (symbols ++ [.closing]), ?_, out ++ Pending.items pending, [], ?_, nofun,
      fun y _ => Takes.paren (htakes _ ?_) hpending⟩
    · rw [meanings_cons, ofToken_opening, meanings_append, hts, meanings_cons, ofToken_closing]
      rfl
    · rw [hout, Pending.items_nil, List.append_nil]
    · intro top hfirst
      cases hfirst
      exact Nat.zero_lt_one

/-- The program of a printed expression is its postorder. -/
theorem Printed.meanings_eq {e : Expression Token} {ts : List Token} (h : Printed 1 e ts)
    {values : Expression Float} (hvalues : e.map (operandValue? table) = values.map some) :
    ∃ symbols, meanings table ts = .ok symbols ∧ ofSymbols symbols = values.postorder := by
  obtain ⟨symbols, hts, out, pending, hout, -, htakes⟩ := h.takes hvalues
  have htakes := htakes Yard.empty nofun
  refine ⟨symbols, hts, ?_⟩
  rw [ofSymbols, Yard.program, htakes.output, htakes.stack, ← hout]
  simp [Yard.empty]

/-- The fault of a printed expression is that of its first name to which nothing is bound. -/
theorem Printed.meanings_fault {p : Nat} {e : Expression Token} {ts : List Token}
    (h : Printed p e ts) {t : Token}
    (hfind : e.leaves.find? (fun t => decide (IsUnbound table t)) = some t) :
    meanings table ts = .error (.unbound t.text) := by
  have hpass : ∀ t : Token, t.IsSign → decide (IsUnbound table t) = false := fun t ht =>
    decide_eq_false (not_isUnbound_of_isSign ht)
  rw [← h.find?_eq hpass] at hfind
  exact meanings_of_find? h.shape hfind

/-! ## From the text to the value -/

/-- The meaning of an expression does not depend on how it is written. Whatever its parentheses and
gaps, its text has the postorder of the expression as its program and the value of the expression as
its value if all its names are bound; otherwise the fault is the first name that is not. -/
theorem evaluate_printed {e : Expression Token} {ts : List Token} {text : String}
    (hprinted : Printed 1 e ts) (htext : Token.Spread ts text.toList) (s : Session) :
    ((∀ t ∈ e.leaves, ¬ IsUnbound s.table t) →
      ∃ values : Expression Float, e.map (operandValue? s.table) = values.map some ∧
        (ofTokens s.table (Token.tokenize text)).result = .ok values.postorder ∧
        (ofTokens s.table (Token.Cursor.ofText text)).result = .ok values.postorder ∧
        (s.evaluate text).result = .ok values.value) ∧
    ∀ t, e.leaves.find? (fun t => decide (IsUnbound s.table t)) = some t →
      (ofTokens s.table (Token.tokenize text)).result = .error (.unbound t.text) ∧
      (ofTokens s.table (Token.Cursor.ofText text)).result = .error (.unbound t.text) ∧
      (s.evaluate text).result = .error (.unbound t.text) := by
  have htokens : Token.tokenize text = ts :=
    (htext.munched hprinted.shape hprinted.isChain).tokenizeChars_eq
  rw [ofTokens_ofText, s.result_evaluate, htokens, result_ofTokens]
  constructor
  · intro hbound
    obtain ⟨values, hvalues⟩ := e.exists_map_eq_map_some fun t hmem =>
      exists_operandValue? (hprinted.isOperand_of_mem_leaves t hmem) (hbound t hmem)
    obtain ⟨symbols, hsymbols, hprogram⟩ := hprinted.meanings_eq hvalues
    have hresult := values.result_postorder
    rw [← hprogram] at hresult
    rw [hsymbols]
    exact ⟨values, hvalues, congrArg _ hprogram, congrArg _ hprogram, hresult⟩
  · intro t hfind
    rw [hprinted.meanings_fault hfind]
    exact ⟨rfl, rfl, rfl⟩

theorem evaluate_printed_power :
    (Session.fresh.evaluate "(a - 2.5)#^ a").result = .error (.unbound "a") ∧
    ((⟨(∅ : Variables).insert "a" 4⟩ : Session).evaluate "(a - 2.5)#^ a").result =
      .ok (Operator.pow.apply (4 - Binary64.toFloat false 0x4004000000000000) 4) := by
  have ha : Token.IsOperand ⟨.identifier, "a"⟩ := show Token.isName "a".toList from rfl
  have hnumber : Token.IsOperand ⟨.number, "2.5"⟩ :=
    show Token.IsPlainNumber (['2'] ++ '.' :: ['5']) from .fractional (by decide) (by decide)
  have hdifference : Printed 1 (.node .sub (.leaf ⟨.identifier, "a"⟩) (.leaf ⟨.number, "2.5"⟩)) _ :=
    .node (by decide) (.leaf ha) (.leaf hnumber)
  have hprinted : Printed 1 (.node .pow _ (.leaf ⟨.identifier, "a"⟩)) _ :=
    .node (by decide) (.paren hdifference) (.leaf ha)
  have hempty : Token.Gap [] := nofun
  have hblank : Token.Gap [' '] := by decide
  have hsharp : Token.Gap ['#'] := by decide
  have hspread := Token.Spread.cons (t := Token.opening) hempty <|
    .cons (t := ⟨.identifier, "a"⟩) hempty <| .cons (t := Token.ofOperator .sub) hblank <|
    .cons (t := ⟨.number, "2.5"⟩) hblank <| .cons (t := Token.closing) hempty <|
    .cons (t := Token.ofOperator .pow) hsharp <| .cons (t := ⟨.identifier, "a"⟩) hblank <|
    .nil hempty
  rw [← String.toList_ofList (l := _ ++ _ ++ _)] at hspread
  constructor
  · exact ((evaluate_printed hprinted hspread Session.fresh).2 ⟨.identifier, "a"⟩ (by decide)).2.2
  · obtain ⟨values, hvalues, -, -, hvalue⟩ :=
      (evaluate_printed hprinted hspread ⟨(∅ : Variables).insert "a" 4⟩).1
        (by simp [IsUnbound, Expression.leaves])
    have hread : Numeral.read? "2.5" = some (Binary64.toFloat false 0x4004000000000000) := by
      decide +kernel
    rcases values with _ | ⟨op, _ | ⟨op', x | _, y | _⟩, z | _⟩
    all_goals simp [Expression.map, operandValue?, hread] at hvalues
    obtain ⟨rfl, ⟨rfl, rfl, rfl⟩, rfl⟩ := hvalues
    exact hvalue

/-- Multiplication binds more tightly than addition, and operators of one precedence group to the
left. -/
example :
    (ofTokens ∅ (Token.tokenize "3 + 4 * 2")).result.map Postfix.text = .ok "3.0 4.0 2.0 * +" ∧
      (Session.fresh.evaluate "3 + 4 * 2").result = .ok 11 ∧
      (ofTokens ∅ (Token.tokenize "8 - 4 - 2 ^ 3 * 5")).result.map Postfix.text =
        .ok "8.0 4.0 - 2.0 3.0 ^ 5.0 * -" := by decide +kernel

end InfixCalculator
