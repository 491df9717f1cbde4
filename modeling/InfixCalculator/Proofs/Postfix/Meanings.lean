import InfixCalculator.Session.Basic

/-!
# The meanings of tokens

Reading a source and evaluating an expression come down to two steps without a journal: find the
symbols that all tokens mean, or the fault of the first that means nothing; then take the symbols
in a yard.

* `meanings`: the symbols that tokens mean.
* `ofTokens_tokens`: a source is read as the list of its tokens, and a cursor on a text as the
  tokens of the text (`ofTokens_ofText`).
* `result_ofTokens`, `Session.result_evaluate`: the program of tokens and the value of an
  expression.
-/

namespace InfixCalculator

/-! ## All tokens of a source -/

namespace TokenSource

variable {σ : Type} [TokenSource σ]

/-- The tokens that a source shows until it is used up. -/
def tokens (source : σ) : List Token :=
  match _h : current source with
  | none => []
  | some t => t :: tokens (advance source)
termination_by remaining source
decreasing_by exact remaining_advance_lt _h

theorem tokens_of_none {source : σ} (h : current source = none) : tokens source = [] := by
  rw [tokens]
  split
  · rfl
  · next h' => simp [h] at h'

theorem tokens_of_some {source : σ} {t : Token} (h : current source = some t) :
    tokens source = t :: tokens (advance source) := by
  rw [tokens]
  split
  · next h' => simp [h] at h'
  · next h' =>
    rw [h] at h'
    cases h'
    rfl

end TokenSource

/-- A cursor on a text shows the tokens of the text. -/
theorem Token.tokens_cursor (cs : List Char) :
    TokenSource.tokens (⟨cut? cs⟩ : Token.Cursor) = tokenizeChars cs := by
  induction hlength : cs.length using Nat.strongRecOn generalizing cs with
  | ind n ih =>
    subst hlength
    cases hcut : cut? cs with
    | none =>
      rw [tokenizeChars_of_none hcut]
      exact TokenSource.tokens_of_none rfl
    | some cut =>
      rw [tokenizeChars_of_some hcut]
      refine (TokenSource.tokens_of_some (t := cut.token) rfl).trans ?_
      exact congrArg _ (ih _ (length_rest_lt_of_cut? hcut) cut.rest rfl)

theorem Token.tokens_ofText (text : String) :
    TokenSource.tokens (Cursor.ofText text) = tokenize text :=
  tokens_cursor text.toList

namespace Postfix

/-! ## Meanings -/

/-- The symbols that tokens mean, or the fault of the first of them that means nothing. -/
def meanings (table : Variables) (ts : List Token) : Except Fault (List Symbol) :=
  ts.mapM (Symbol.ofToken table)

variable {table : Variables}

@[simp] theorem meanings_nil : meanings table [] = .ok [] := rfl

theorem meanings_cons (t : Token) (ts : List Token) :
    meanings table (t :: ts) =
      (Symbol.ofToken table t).bind fun symbol => (meanings table ts).map (symbol :: ·) := by
  simp only [meanings, List.mapM_cons]
  cases Symbol.ofToken table t with
  | error fault => rfl
  | ok symbol => cases ts.mapM (Symbol.ofToken table) <;> rfl

theorem meanings_append (ts us : List Token) :
    meanings table (ts ++ us) =
      (meanings table ts).bind fun symbols => (meanings table us).map (symbols ++ ·) := by
  simp only [meanings, List.mapM_append]
  cases ts.mapM (Symbol.ofToken table) with
  | error fault => rfl
  | ok symbols => cases us.mapM (Symbol.ofToken table) <;> rfl

theorem meanings_congr {table table' : Variables} {ts : List Token}
    (h : ∀ t ∈ ts, Symbol.ofToken table t = Symbol.ofToken table' t) :
    meanings table ts = meanings table' ts := by
  induction ts with
  | nil => rfl
  | cons t ts ih =>
    rw [meanings_cons, meanings_cons, h t List.mem_cons_self,
      ih fun u hu => h u (List.mem_cons_of_mem _ hu)]

/-- Only a name looks at the table, and only at its own entry. -/
theorem ofToken_congr {table table' : Variables} {t : Token}
    (h : t.kind = .identifier → table[t.text]? = table'[t.text]?) :
    Symbol.ofToken table t = Symbol.ofToken table' t := by
  obtain ⟨kind, text⟩ := t
  cases kind with
  | identifier =>
    have hlookup : table[text]? = table'[text]? := h rfl
    simp only [Symbol.ofToken, hlookup]
  | number => rfl
  | operator => rfl
  | punctuation => rfl

/-- Every token has its symbol, in the same place. -/
theorem meanings_eq_ok_iff {ts : List Token} {symbols : List Symbol} :
    meanings table ts = .ok symbols ↔ ts.map (Symbol.ofToken table) = symbols.map .ok := by
  induction ts generalizing symbols with
  | nil => cases symbols <;> simp
  | cons t ts ih =>
    rw [meanings_cons, List.map_cons]
    constructor
    · intro h
      cases ht : Symbol.ofToken table t with
      | error fault =>
        rw [ht] at h
        cases h
      | ok symbol =>
        cases hts : meanings table ts with
        | error fault =>
          rw [ht, hts] at h
          cases h
        | ok symbols' =>
          rw [ht, hts] at h
          cases h
          rw [List.map_cons, ih.mp hts]
    · intro h
      cases symbols with
      | nil => cases h
      | cons symbol symbols =>
        obtain ⟨ht, hts⟩ := List.cons.inj h
        rw [ht, ih.mpr hts]
        rfl

theorem exists_meanings {ts : List Token}
    (h : ∀ t ∈ ts, ∃ symbol, Symbol.ofToken table t = .ok symbol) :
    ∃ symbols, meanings table ts = .ok symbols := by
  induction ts with
  | nil => exact ⟨[], rfl⟩
  | cons t ts ih =>
    obtain ⟨symbol, hsymbol⟩ := h t List.mem_cons_self
    obtain ⟨symbols, hsymbols⟩ := ih fun u hu => h u (List.mem_cons_of_mem _ hu)
    refine ⟨symbol :: symbols, ?_⟩
    rw [meanings_cons, hsymbol, hsymbols]
    rfl

/-- The fault of the first token that means nothing. -/
theorem meanings_eq_error {ts : List Token} {p : Token → Bool} {t : Token} {fault : Fault}
    (hfind : ts.find? p = some t) (hfault : Symbol.ofToken table t = .error fault)
    (hgood : ∀ u ∈ ts, p u = false → ∃ symbol, Symbol.ofToken table u = .ok symbol) :
    meanings table ts = .error fault := by
  induction ts with
  | nil => cases hfind
  | cons u us ih =>
    rw [meanings_cons]
    cases hu : p u with
    | true =>
      rw [List.find?_cons_of_pos hu] at hfind
      cases hfind
      rw [hfault]
      rfl
    | false =>
      rw [List.find?_cons_of_neg (by simp [hu])] at hfind
      obtain ⟨symbol, hsymbol⟩ := hgood u List.mem_cons_self hu
      rw [hsymbol, ih hfind fun v hv => hgood v (List.mem_cons_of_mem _ hv)]
      rfl

/-! ## The program of a source -/

section

variable {σ : Type} [TokenSource σ]

theorem ofTokensFrom_of_none {source : σ} (h : TokenSource.current source = none) (yard : Yard) :
    ofTokensFrom table source yard = pure yard.program := by
  rw [ofTokensFrom]
  split
  · rfl
  · next h' => simp [h] at h'

theorem ofTokensFrom_of_some {source : σ} {t : Token} (h : TokenSource.current source = some t)
    (yard : Yard) :
    ofTokensFrom table source yard =
      noteToken t >>= fun _ => Traced.ofExcept (Symbol.ofToken table t) >>= fun symbol =>
        ofTokensFrom table (TokenSource.advance source) (yard.take symbol) := by
  rw [ofTokensFrom]
  split
  · next h' => simp [h] at h'
  · next h' =>
    rw [h] at h'
    cases h'
    rfl

/-- A source is read as the list of its tokens is. -/
theorem ofTokensFrom_tokens (source : σ) (yard : Yard) :
    ofTokensFrom table (TokenSource.tokens source) yard = ofTokensFrom table source yard := by
  induction hbound : TokenSource.remaining source using Nat.strongRecOn generalizing source yard with
  | ind n ih =>
    subst hbound
    cases hcurrent : TokenSource.current source with
    | none =>
      rw [TokenSource.tokens_of_none hcurrent, ofTokensFrom_of_none hcurrent]
      exact ofTokensFrom_of_none rfl yard
    | some t =>
      have hrest := fun symbol =>
        ih _ (TokenSource.remaining_advance_lt hcurrent) (TokenSource.advance source)
          (yard.take symbol) rfl
      rw [TokenSource.tokens_of_some hcurrent, ofTokensFrom_of_some hcurrent,
        ofTokensFrom_of_some (t := t) rfl]
      simp only [← hrest]
      rfl

theorem ofTokens_tokens (source : σ) :
    ofTokens table (TokenSource.tokens source) = ofTokens table source :=
  ofTokensFrom_tokens source Yard.empty

end

/-- A cursor on a text and the tokens of the text have one program, with the same records. -/
theorem ofTokens_ofText (text : String) :
    ofTokens table (Token.Cursor.ofText text) = ofTokens table (Token.tokenize text) := by
  rw [← ofTokens_tokens, Token.tokens_ofText]

theorem result_ofTokensFrom (ts : List Token) (yard : Yard) :
    (ofTokensFrom table ts yard).result =
      (meanings table ts).map fun symbols => (symbols.foldl Yard.take yard).program := by
  induction ts generalizing yard with
  | nil =>
    rw [ofTokensFrom_of_none rfl]
    rfl
  | cons t ts ih =>
    rw [ofTokensFrom_of_some (t := t) rfl, meanings_cons]
    simp only [Traced.result_bind]
    cases ht : Symbol.ofToken table t with
    | error fault => rfl
    | ok symbol =>
      refine (ih (yard.take symbol)).trans ?_
      cases meanings table ts <;> rfl

theorem ofTokensFrom_congr {table table' : Variables} {ts : List Token}
    (h : ∀ t ∈ ts, Symbol.ofToken table t = Symbol.ofToken table' t) (yard : Yard) :
    ofTokensFrom table ts yard = ofTokensFrom table' ts yard := by
  induction ts generalizing yard with
  | nil => rw [ofTokensFrom_of_none rfl, ofTokensFrom_of_none rfl]
  | cons t ts ih =>
    have hrest := ih fun u hu => h u (List.mem_cons_of_mem _ hu)
    rw [ofTokensFrom_of_some (t := t) rfl, ofTokensFrom_of_some (t := t) rfl,
      h t List.mem_cons_self]
    exact congrArg _ (funext fun _ => congrArg _ (funext fun symbol => hrest (yard.take symbol)))

/-- The program of a list of tokens, up to its records. -/
theorem result_ofTokens (ts : List Token) :
    (ofTokens table ts).result = (meanings table ts).map ofSymbols :=
  result_ofTokensFrom ts Yard.empty

end Postfix

/-- The value of an expression, up to its records. -/
theorem Session.result_evaluate (s : Session) (expression : String) :
    (s.evaluate expression).result =
      (Postfix.meanings s.table (Token.tokenize expression)).bind fun symbols =>
        Postfix.result (Postfix.ofSymbols symbols) := by
  simp only [evaluate, Traced.result_bind, Postfix.result_ofTokens]
  cases Postfix.meanings s.table (Token.tokenize expression) with
  | error fault => rfl
  | ok symbols =>
    show (Postfix.result (Postfix.ofSymbols symbols)).bind _ =
      Postfix.result (Postfix.ofSymbols symbols)
    cases Postfix.result (Postfix.ofSymbols symbols) <;> rfl

/-- The value of an expression is that of its program. -/
theorem Session.result_evaluate_eq_bind (s : Session) (expression : String) :
    (s.evaluate expression).result =
      (Postfix.ofTokens s.table (Token.tokenize expression)).result.bind Postfix.result := by
  rw [result_evaluate, Postfix.result_ofTokens]
  cases Postfix.meanings s.table (Token.tokenize expression) <;> rfl

end InfixCalculator
