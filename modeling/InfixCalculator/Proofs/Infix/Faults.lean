import InfixCalculator.Proofs.Infix.Printed
import InfixCalculator.Proofs.Postfix.Shortage

/-!
# Faults of expressions

A text has no value for one of two reasons: a name in it is not bound, or its program lacks
operands. A name that is not bound comes first, wherever it stands. There is no third reason,
because every token that is cut out of a text means something to the yard; and neither reason has
to do with the values to which the names are bound.

* `evaluate_of_bound`, `evaluate_of_find?`: a text all of whose names are bound, and any other.
* `fault_cases`: the two kinds of fault.
* `evaluate_eq_error_of_same_names`: tables that bind the same names have the same faults.
* `evaluate_faults`: when a text has which fault.
-/

namespace InfixCalculator

open Postfix

/-! ## Tables that bind the same names -/

theorem isUnbound_congr {table table' : Variables}
    (hnames : ∀ name, name ∈ table ↔ name ∈ table') (t : Token) :
    IsUnbound table t ↔ IsUnbound table' t :=
  and_congr_right' (not_congr (hnames t.text))

namespace Postfix

variable {table table' : Variables}

/-- A token that means something in two tables means the same in both, up to a value. -/
theorem map_eq_of_ofToken (f : Float → Float) (hf : ∀ x y, f x = f y) {t : Token}
    {symbol symbol' : Symbol} (h : Symbol.ofToken table t = .ok symbol)
    (h' : Symbol.ofToken table' t = .ok symbol') : symbol.map f = symbol'.map f := by
  obtain ⟨kind, text⟩ := t
  cases kind with
  | identifier =>
    cases hx : table[text]? with
    | none => simp [Symbol.ofToken, hx] at h
    | some x =>
      cases hy : table'[text]? with
      | none => simp [Symbol.ofToken, hy] at h'
      | some y =>
        obtain rfl : Symbol.value x = symbol := by simpa [Symbol.ofToken, hx] using h
        obtain rfl : Symbol.value y = symbol' := by simpa [Symbol.ofToken, hy] using h'
        exact congrArg Symbol.value (hf x y)
  -- no other token looks at the table
  | number => exact congrArg (Symbol.map f) (Except.ok.inj (h.symm.trans h'))
  | operator => exact congrArg (Symbol.map f) (Except.ok.inj (h.symm.trans h'))
  | punctuation => exact congrArg (Symbol.map f) (Except.ok.inj (h.symm.trans h'))

theorem map_eq_of_meanings (f : Float → Float) (hf : ∀ x y, f x = f y) {ts : List Token}
    {symbols symbols' : List Symbol} (h : meanings table ts = .ok symbols)
    (h' : meanings table' ts = .ok symbols') :
    symbols.map (Symbol.map f) = symbols'.map (Symbol.map f) := by
  rw [meanings_eq_ok_iff] at h h'
  induction ts generalizing symbols symbols' with
  | nil =>
    rw [List.map_eq_nil_iff.mp h.symm, List.map_eq_nil_iff.mp h'.symm]
  | cons t ts ih =>
    obtain ⟨symbol, rest, rfl, ht, hts⟩ := List.map_eq_cons_iff.mp h.symm
    obtain ⟨symbol', rest', rfl, ht', hts'⟩ := List.map_eq_cons_iff.mp h'.symm
    rw [List.map_cons, List.map_cons, map_eq_of_ofToken f hf ht.symm ht'.symm,
      ih hts.symm hts'.symm]

end Postfix

/-! ## The value of a text -/

namespace Session

variable {s s' : Session} {text : String}

/-- The first name in the text to which nothing is bound. -/
def firstUnbound? (s : Session) (text : String) : Option Token :=
  (Token.tokenize text).find? fun t => decide (IsUnbound s.table t)

theorem firstUnbound?_eq_none_iff :
    s.firstUnbound? text = none ↔ ∀ t ∈ Token.tokenize text, ¬ IsUnbound s.table t := by
  simp [firstUnbound?]

theorem evaluate_of_find? {t : Token} (h : s.firstUnbound? text = some t) :
    (s.evaluate text).result = .error (.unbound t.text) := by
  rw [result_evaluate, meanings_of_find? (fun _ => Token.isOperand_or_isSign_of_mem_tokenize) h]
  rfl

theorem evaluate_of_bound (h : s.firstUnbound? text = none) :
    ∃ symbols, meanings s.table (Token.tokenize text) = .ok symbols ∧
      (s.evaluate text).result = result (ofSymbols symbols) := by
  have hbound := firstUnbound?_eq_none_iff.mp h
  obtain ⟨symbols, hsymbols⟩ := exists_meanings fun t ht =>
    exists_ofToken (Token.isOperand_or_isSign_of_mem_tokenize ht) (hbound t ht)
  refine ⟨symbols, hsymbols, ?_⟩
  rw [result_evaluate, hsymbols]
  rfl

/-- The fault of a text is a name that is not bound, or with all names bound a missing operand. -/
theorem fault_cases {fault : Fault} (h : (s.evaluate text).result = .error fault) :
    (∃ t, s.firstUnbound? text = some t ∧ fault = .unbound t.text) ∨
      s.firstUnbound? text = none ∧ fault = .missingOperand := by
  cases hfind : s.firstUnbound? text with
  | some t =>
    rw [evaluate_of_find? hfind] at h
    exact .inl ⟨t, rfl, (Except.error.inj h).symm⟩
  | none =>
    obtain ⟨symbols, -, hvalue⟩ := evaluate_of_bound hfind
    exact .inr ⟨rfl, result_eq_error (hvalue.symm.trans h)⟩

theorem evaluate_eq_error_of_same_names (hnames : ∀ name, name ∈ s.table ↔ name ∈ s'.table)
    {fault : Fault} (h : (s.evaluate text).result = .error fault) :
    (s'.evaluate text).result = .error fault := by
  have hfirst : s'.firstUnbound? text = s.firstUnbound? text := by
    simp only [firstUnbound?, isUnbound_congr hnames]
  rcases fault_cases h with ⟨t, hfind, rfl⟩ | ⟨hfind, rfl⟩
  · exact evaluate_of_find? (hfirst.trans hfind)
  · obtain ⟨symbols, hsymbols, hvalue⟩ := evaluate_of_bound hfind
    obtain ⟨symbols', hsymbols', hvalue'⟩ := evaluate_of_bound (hfirst.trans hfind)
    have hmap := map_eq_of_meanings (fun _ => 0) (fun _ _ => rfl) hsymbols hsymbols'
    rw [hvalue] at h
    have hlacks := (result_eq_error_iff.mp h).of_map_eq (map_isOperator_ofSymbols hmap)
    rw [hvalue', result_eq_error_iff.mpr hlacks]

/-- What can be wrong with a text, and when. Every token means something unless it is a name that
is not bound, so no fault speaks of a token. The fault is the first name that is not bound if there
is one; otherwise there is a program, and the fault is a missing operand exactly if the program
lacks operands. Which of this holds depends on the names that are bound and not on their values. -/
theorem evaluate_faults (s : Session) (text : String) :
    (∀ t ∈ Token.tokenize text,
      (∃ symbol, Symbol.ofToken s.table t = .ok symbol) ↔ ¬ IsUnbound s.table t) ∧
    (∀ word, (s.evaluate text).result ≠ .error (.meaningless word)) ∧
    (∀ name, (s.evaluate text).result = .error (.unbound name) ↔
      ∃ t, (Token.tokenize text).find? (fun t => decide (IsUnbound s.table t)) = some t ∧
        t.text = name) ∧
    ((∀ t ∈ Token.tokenize text, ¬ IsUnbound s.table t) →
      ∃ items, (ofTokens s.table (Token.tokenize text)).result = .ok items ∧
        ((s.evaluate text).result = .error .missingOperand ↔ LacksOperands items) ∧
        (¬ LacksOperands items → ∃ x, (s.evaluate text).result = .ok x)) ∧
    ∀ s' : Session, (∀ name, name ∈ s.table ↔ name ∈ s'.table) →
      ∀ fault, (s.evaluate text).result = .error fault ↔ (s'.evaluate text).result = .error fault := by
  refine ⟨?_, ?_, ?_, ?_, ?_⟩
  · intro t ht
    constructor
    · intro h hunbound
      obtain ⟨symbol, hsymbol⟩ := h
      rw [ofToken_of_isUnbound hunbound] at hsymbol
      cases hsymbol
    · exact exists_ofToken (Token.isOperand_or_isSign_of_mem_tokenize ht)
  · intro word h
    rcases fault_cases h with ⟨t, -, hfault⟩ | ⟨-, hfault⟩ <;> cases hfault
  · intro name
    constructor
    · intro h
      rcases fault_cases h with ⟨t, hfind, hfault⟩ | ⟨-, hfault⟩
      · exact ⟨t, hfind, (Fault.unbound.inj hfault).symm⟩
      · cases hfault
    · intro h
      obtain ⟨t, hfind, rfl⟩ := h
      exact evaluate_of_find? hfind
  · intro hbound
    obtain ⟨symbols, hsymbols, hvalue⟩ := evaluate_of_bound (firstUnbound?_eq_none_iff.mpr hbound)
    refine ⟨ofSymbols symbols, ?_, ?_, ?_⟩
    · rw [result_ofTokens, hsymbols]
      rfl
    · rw [hvalue, result_eq_error_iff]
    · intro henough
      rw [hvalue]
      exact exists_result henough
  · intro s' hnames fault
    exact ⟨evaluate_eq_error_of_same_names hnames,
      evaluate_eq_error_of_same_names fun name => (hnames name).symm⟩

/-- A name that is not bound goes before a missing operand, although it stands after it. -/
example : (fresh.evaluate "+ 2 * y").result = .error (.unbound "y") := by decide +kernel

end Session

end InfixCalculator
