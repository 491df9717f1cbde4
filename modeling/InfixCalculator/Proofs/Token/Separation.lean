import InfixCalculator.Proofs.Token.Munch
import Mathlib.Data.List.Chain

/-!
# Separation of tokens

Where one text ends and another begins, a word may run on. It cannot if the second text stops every
word; then the tokens of the two texts together are the tokens of the one and those of the other.

* `Stops`: a text that prolongs no word in front of it.
* `Munched.append`: two texts may be put together where the second one stops every word.
* `tokenizeChars_append`: tokenizing two texts, of which the second stops every word.
* `Spread.munched`: tokens written with any gaps between them, no two operands in a row, are
  recovered.
-/

namespace InfixCalculator.Token

/-! ## Texts that stop a word -/

/-- The text prolongs no word that it comes after. -/
def Stops (cs : List Char) : Prop := Misses isNameRest cs ∧ NoFraction cs

theorem Stops.misses_isDigit {cs : List Char} (h : Stops cs) : Misses Char.isDigit cs :=
  h.1.mono fun _ => not_isDigit_of_isNameRest_eq_false

theorem stops_cons {c : Char} (hc : isNameRest c = false) (hpoint : c ≠ '.') (cs : List Char) :
    Stops (c :: cs) := by
  constructor
  · intro d hfirst
    cases hfirst
    exact hc
  · intro d rest hsplit
    cases hsplit
    exact absurd rfl hpoint

theorem NoFraction.append {cs rest : List Char} (hcs : NoFraction cs) (hrest : Stops rest) :
    NoFraction (cs ++ rest) := by
  intro d tail h
  match cs, hcs with
  | [], _ => exact hrest.2 d tail h
  | [c], _ =>
    obtain ⟨-, rfl⟩ := List.cons.inj h
    exact hrest.misses_isDigit d rfl
  | c :: c' :: cs, hcs =>
    cases h
    exact hcs _ cs rfl

theorem isNameRest_eq_false_of_isStart_eq_false {c : Char} (h : isStart c = false) :
    isNameRest c = false := by
  by_contra hrest
  rw [isStart_of_isNameRest (by simpa using hrest)] at h
  cases h

theorem Gap.misses {g : List Char} (h : Gap g) : Misses isNameRest g := fun c hc =>
  isNameRest_eq_false_of_isStart_eq_false (h c (List.mem_of_head? hc))

theorem Gap.noFraction {g : List Char} (h : Gap g) : NoFraction g := by
  rintro d rest rfl
  have hd := h d (List.mem_cons_of_mem _ List.mem_cons_self)
  exact not_isDigit_of_isNameRest_eq_false (isNameRest_eq_false_of_isStart_eq_false hd)

theorem Gap.append {g g' : List Char} (h : Gap g) (h' : Gap g') : Gap (g ++ g') := fun c hc =>
  (List.mem_append.mp hc).elim (h c) (h' c)

theorem Stops.gap_append {g cs : List Char} (hgap : Gap g) (h : Stops cs) : Stops (g ++ cs) :=
  ⟨hgap.misses.append h.1, hgap.noFraction.append h⟩

theorem stops_nil : Stops [] := by
  constructor
  · intro c hfirst
    cases hfirst
  · intro d rest hsplit
    cases hsplit

theorem Gap.stops {g : List Char} (h : Gap g) : Stops g := by
  simpa using Stops.gap_append h stops_nil

/-! ## Two texts -/

theorem Longest.append {kind : Kind} {word rest cs : List Char} (h : Longest kind word rest)
    (hcs : Stops cs) : Longest kind word (rest ++ cs) := by
  cases h with
  | integral hds hrest hpoint =>
    exact .integral hds (hrest.append hcs.misses_isDigit) (hpoint.append hcs)
  | fractional hds hfs hrest => exact .fractional hds hfs (hrest.append hcs.misses_isDigit)
  | name hword hrest => exact .name hword (hrest.append hcs.1)
  | operator hc => exact .operator hc
  | paren hc => exact .paren hc

theorem Munched.gap_append {g cs : List Char} {ts : List Token} (hgap : Gap g)
    (h : Munched ts cs) : Munched ts (g ++ cs) := by
  cases h with
  | nil hgap' => exact .nil (hgap.append hgap')
  | cons hgap' hword hrest =>
    rw [← List.append_assoc, ← List.append_assoc]
    exact .cons (hgap.append hgap') hword hrest

/-- Two texts put together, if the second one prolongs no word of the first. -/
theorem Munched.append {cs cs' : List Char} {ts ts' : List Token} (h : Munched ts cs)
    (h' : Munched ts' cs') (hstops : Stops cs') : Munched (ts ++ ts') (cs ++ cs') := by
  induction h with
  | nil hgap => exact h'.gap_append hgap
  | cons hgap hword _ ih =>
    rw [List.append_assoc, List.cons_append]
    exact .cons hgap (hword.append hstops) ih

theorem tokenizeChars_nil : tokenizeChars [] = [] := tokenizeChars_of_none rfl

theorem tokenizeChars_append (cs : List Char) {cs' : List Char} (h : Stops cs') :
    tokenizeChars (cs ++ cs') = tokenizeChars cs ++ tokenizeChars cs' :=
  ((munched_tokenizeChars cs).append (munched_tokenizeChars cs') h).tokenizeChars_eq

theorem tokenizeChars_gap_append {g : List Char} (h : Gap g) (cs : List Char) :
    tokenizeChars (g ++ cs) = tokenizeChars cs :=
  ((munched_tokenizeChars cs).gap_append h).tokenizeChars_eq

theorem tokenizeChars_word_append {t : Token} {cs : List Char}
    (h : Longest t.kind t.text.toList cs) :
    tokenizeChars (t.text.toList ++ cs) = t :: tokenizeChars cs :=
  (Munched.cons (g := []) (by simp [Gap]) h (munched_tokenizeChars cs)).tokenizeChars_eq

/-! ## Operands and signs -/

/-- Digits, or digits, a point and digits. -/
inductive IsPlainNumber : List Char → Prop
  | integral {ds : List Char} (hds : IsDigits ds) : IsPlainNumber ds
  | fractional {ds fs : List Char} (hds : IsDigits ds) (hfs : IsDigits fs) :
      IsPlainNumber (ds ++ '.' :: fs)

/-- A number without sign and exponent, or an identifier. -/
def IsOperand (t : Token) : Prop :=
  match t.kind with
  | .number => IsPlainNumber t.text.toList
  | .identifier => isName t.text.toList
  | _ => False

/-- The token of an operator. -/
def ofOperator (op : Operator) : Token := ⟨.operator, op.symbol⟩

/-- The token of an opening parenthesis. -/
def opening : Token := ⟨.punctuation, "("⟩

/-- The token of a closing parenthesis. -/
def closing : Token := ⟨.punctuation, ")"⟩

/-- The tokens of a single character. -/
def IsSign (t : Token) : Prop := (∃ op, t = ofOperator op) ∨ t = opening ∨ t = closing

theorem isOperator_symbolChar (op : Operator) : isOperator op.symbolChar := by cases op <;> decide

/-- A sign is longest before any rest. -/
theorem IsSign.longest {t : Token} (h : t.IsSign) (rest : List Char) :
    Longest t.kind t.text.toList rest := by
  rcases h with ⟨op, rfl⟩ | rfl | rfl
  · show Longest .operator (String.ofList [op.symbolChar]).toList rest
    rw [String.toList_ofList]
    exact .operator (isOperator_symbolChar op)
  · exact .paren rfl
  · exact .paren rfl

theorem IsOperand.longest {t : Token} {rest : List Char} (h : t.IsOperand) (hrest : Stops rest) :
    Longest t.kind t.text.toList rest := by
  obtain ⟨kind, text⟩ := t
  cases kind with
  | number =>
    change IsPlainNumber text.toList at h
    show Longest .number text.toList rest
    generalize text.toList = cs at h ⊢
    cases h with
    | integral hds => exact .integral hds hrest.misses_isDigit hrest.2
    | fractional hds hfs => exact .fractional hds hfs hrest.misses_isDigit
  | identifier => exact .name h hrest.1
  | operator => cases h
  | punctuation => cases h

/-- A sign stops every word. -/
theorem IsSign.stops {t : Token} (h : t.IsSign) (rest : List Char) :
    Stops (t.text.toList ++ rest) := by
  rcases h with ⟨op, rfl⟩ | rfl | rfl
  · show Stops ((String.ofList [op.symbolChar]).toList ++ rest)
    rw [String.toList_ofList]
    exact stops_cons (isNameRest_eq_false_of_isOperator (isOperator_symbolChar op))
      (by cases op <;> decide) rest
  · exact stops_cons (by decide) (by decide) rest
  · exact stops_cons (by decide) (by decide) rest

/-- A longest word is an operand or a sign. -/
theorem Longest.isOperand_or_isSign {t : Token} {rest : List Char}
    (h : Longest t.kind t.text.toList rest) : t.IsOperand ∨ t.IsSign := by
  obtain ⟨kind, text⟩ := t
  change Longest kind text.toList rest at h
  obtain ⟨cs, rfl⟩ : ∃ cs, text = String.ofList cs := ⟨text.toList, String.ofList_toList.symm⟩
  rw [String.toList_ofList] at h
  cases h with
  | integral hds hrest hpoint =>
    refine .inl ?_
    show IsPlainNumber (String.ofList cs).toList
    rw [String.toList_ofList]
    exact .integral hds
  | @fractional ds fs _ hds hfs hrest =>
    refine .inl ?_
    show IsPlainNumber (String.ofList (ds ++ '.' :: fs)).toList
    rw [String.toList_ofList]
    exact .fractional hds hfs
  | name hcs hrest =>
    refine .inl ?_
    show isName (String.ofList cs).toList
    rwa [String.toList_ofList]
  | operator hc =>
    obtain ⟨op, -, hop⟩ := List.any_eq_true.mp hc
    refine .inr (.inl ⟨op, ?_⟩)
    rw [ofOperator, Operator.symbol, of_decide_eq_true hop]
  | paren hc =>
    refine .inr (.inr ?_)
    simp only [isParen, Bool.or_eq_true, decide_eq_true_eq] at hc
    rcases hc with rfl | rfl
    · exact .inl rfl
    · exact .inr rfl

theorem Munched.isOperand_or_isSign {ts : List Token} {cs : List Char} (h : Munched ts cs) :
    ∀ t ∈ ts, t.IsOperand ∨ t.IsSign := by
  induction h with
  | nil _ => nofun
  | cons _ hword _ ih =>
    intro t hmem
    rcases List.mem_cons.mp hmem with rfl | hmem
    · exact hword.isOperand_or_isSign
    · exact ih t hmem

/-- Every token of a text is an operand or a sign. -/
theorem isOperand_or_isSign_of_mem_tokenize {text : String} {t : Token} (h : t ∈ tokenize text) :
    t.IsOperand ∨ t.IsSign :=
  (munched_tokenizeChars text.toList).isOperand_or_isSign t h

/-- An operand or a sign is cut off in front of a text that does not prolong it. -/
theorem tokenizeChars_text_append {t : Token} (h : t.IsOperand ∨ t.IsSign) {cs : List Char}
    (hcs : Stops cs) : tokenizeChars (t.text.toList ++ cs) = t :: tokenizeChars cs := by
  refine tokenizeChars_word_append ?_
  rcases h with hoperand | hsign
  · exact hoperand.longest hcs
  · exact hsign.longest cs

/-- An operand or a sign that stands alone is one token. -/
theorem tokenize_text {t : Token} (h : t.IsOperand ∨ t.IsSign) : tokenize t.text = [t] := by
  have htokens := tokenizeChars_text_append h stops_nil
  rw [tokenizeChars_nil, List.append_nil] at htokens
  exact htokens

/-! ## Tokens with gaps between them -/

/-- The words of the tokens in order, with a gap before, between and after them. -/
inductive Spread : List Token → List Char → Prop
  | nil {g : List Char} (hgap : Gap g) : Spread [] g
  | cons {g cs : List Char} {t : Token} {ts : List Token} (hgap : Gap g) (hrest : Spread ts cs) :
      Spread (t :: ts) (g ++ t.text.toList ++ cs)

theorem Spread.stops {ts : List Token} {cs : List Char} (h : Spread ts cs)
    (hsign : ∀ t ∈ ts.head?, t.IsSign) : Stops cs := by
  cases h with
  | nil hgap => exact hgap.stops
  | cons hgap _ =>
    rw [List.append_assoc]
    exact Stops.gap_append hgap ((hsign _ rfl).stops _)

/-- Operands and signs are recovered from a text over which they are spread, whatever the gaps, if
of two neighbours at least one is a sign. -/
theorem Spread.munched {ts : List Token} {cs : List Char} (h : Spread ts cs)
    (hshape : ∀ t ∈ ts, t.IsOperand ∨ t.IsSign)
    (hchain : ts.IsChain fun t u => t.IsSign ∨ u.IsSign) : Munched ts cs := by
  induction h with
  | nil hgap => exact .nil hgap
  | @cons g cs t ts hgap hrest ih =>
    have hmunched := ih (fun u hu => hshape u (List.mem_cons_of_mem _ hu)) hchain.tail
    refine .cons hgap ?_ hmunched
    by_cases hsign : t.IsSign
    · exact hsign.longest cs
    · have hoperand := (hshape t List.mem_cons_self).resolve_right hsign
      refine hoperand.longest (hrest.stops ?_)
      intro u hu
      obtain ⟨us, rfl⟩ := List.head?_eq_some_iff.mp hu
      exact ((List.isChain_cons_cons.mp hchain).1).resolve_left hsign

end InfixCalculator.Token
