import InfixCalculator.Token.Lexer
import InfixCalculator.Proofs.Span

/-!
# Maximal munch

A text is cut into tokens in exactly one way: gaps of characters that cannot start a token, and
between them words, each as long as the grammar of its kind allows.

* `Longest`: a word of a kind, followed by a rest into which it cannot be prolonged.
* `Munched`: a list of tokens spread over a text, each of them longest where it stands.
* `tokenizeChars_eq_iff`: tokenizing finds the tokens that are spread so, and no others.
-/

namespace InfixCalculator.Token

/-! ## Character classes -/

theorem isNameRest_of_isDigit {c : Char} (h : c.isDigit) : isNameRest c := by
  simp [isNameRest, Char.isAlphanum, h]

theorem isNameStart_eq_false_of_isDigit {c : Char} (h : c.isDigit) : isNameStart c = false := by
  rw [Bool.eq_false_iff]
  intro hstart
  have hupper : c.isUpper = decide ('A'.val ≤ c.val ∧ c.val ≤ 'Z'.val) := rfl
  have hlower : c.isLower = (decide ('a'.val ≤ c.val) && decide (c.val ≤ 'z'.val)) := rfl
  have halpha : c.isAlpha = (c.isUpper || c.isLower) := rfl
  simp only [Char.isDigit, isNameStart, halpha, hupper, hlower, Bool.or_eq_true,
    Bool.and_eq_true, decide_eq_true_eq, ge_iff_le, UInt32.le_iff_toNat_le] at h hstart
  have hnine : '9'.val.toNat = 57 := rfl
  have hA : 'A'.val.toNat = 65 := rfl
  have ha : 'a'.val.toNat = 97 := rfl
  rcases hstart with (hstart | hstart) | rfl
  · omega
  · omega
  · exact absurd h.2 (by decide)

theorem isNameRest_eq_false_of_isOperator {c : Char} (h : isOperator c) : isNameRest c = false := by
  simp only [isOperator, Operator.all, List.any_cons, List.any_nil, Bool.or_eq_true,
    decide_eq_true_eq, Bool.or_false] at h
  rcases h with h | h | h | h | h <;> subst h <;> decide

theorem isNameRest_eq_false_of_isParen {c : Char} (h : isParen c) : isNameRest c = false := by
  simp only [isParen, Bool.or_eq_true, decide_eq_true_eq] at h
  rcases h with rfl | rfl <;> decide

theorem isOperator_eq_false_of_isParen {c : Char} (h : isParen c) : isOperator c = false := by
  simp only [isParen, Bool.or_eq_true, decide_eq_true_eq] at h
  rcases h with rfl | rfl <;> decide

theorem isStart_of_isNameRest {c : Char} (h : isNameRest c) : isStart c := by
  simp only [isNameRest, Char.isAlphanum, isStart, isNameStart, Bool.or_eq_true] at *
  rcases h with (h | h) | h
  · exact .inl (.inl (.inr (.inl h)))
  · exact .inl (.inl (.inl h))
  · exact .inl (.inl (.inr (.inr h)))

theorem not_isDigit_of_isNameRest_eq_false {c : Char} (h : isNameRest c = false) :
    c.isDigit = false := by
  by_contra hdigit
  rw [isNameRest_of_isDigit (by simpa using hdigit)] at h
  cases h

theorem not_isNameStart_of_isNameRest_eq_false {c : Char} (h : isNameRest c = false) :
    isNameStart c = false := by
  by_contra hstart
  rw [isNameRest_of_isNameStart (by simpa using hstart)] at h
  cases h

/-! ## Longest words -/

/-- Characters none of which can start a token. -/
def Gap (g : List Char) : Prop := ∀ c ∈ g, isStart c = false

instance (g : List Char) : Decidable (Gap g) := List.decidableBAll _ g

/-- At least one character, and digits only. -/
def IsDigits (cs : List Char) : Prop := cs ≠ [] ∧ ∀ c ∈ cs, c.isDigit

instance (cs : List Char) : Decidable (IsDigits cs) :=
  @instDecidableAnd _ _ inferInstance (List.decidableBAll _ cs)

/-- No point with a digit after it stands in front. -/
def NoFraction (cs : List Char) : Prop := ∀ d rest, cs = '.' :: d :: rest → d.isDigit = false

/-- A word of a kind that the rest after it cannot prolong. -/
inductive Longest : Kind → List Char → List Char → Prop
  | integral {ds rest : List Char} (hds : IsDigits ds) (hrest : Misses Char.isDigit rest)
      (hpoint : NoFraction rest) : Longest .number ds rest
  | fractional {ds fs rest : List Char} (hds : IsDigits ds) (hfs : IsDigits fs)
      (hrest : Misses Char.isDigit rest) : Longest .number (ds ++ '.' :: fs) rest
  | name {cs rest : List Char} (hcs : isName cs) (hrest : Misses isNameRest rest) :
      Longest .identifier cs rest
  | operator {c : Char} {rest : List Char} (hc : isOperator c) : Longest .operator [c] rest
  | paren {c : Char} {rest : List Char} (hc : isParen c) : Longest .punctuation [c] rest

theorem isDigits_takeWhile {c : Char} (h : c.isDigit) (cs : List Char) :
    IsDigits ((c :: cs).takeWhile Char.isDigit) :=
  ⟨by simp [h], fun _ hd => List.mem_takeWhile_imp hd⟩

/-! ## The number in front of a text -/

theorem splitNumber_integral {ds rest : List Char} (hds : IsDigits ds)
    (hrest : Misses Char.isDigit rest) (hpoint : NoFraction rest) :
    splitNumber (ds ++ rest) = (ds, rest) := by
  unfold splitNumber
  rw [takeWhile_eq_of_misses hds.2 hrest, dropWhile_eq_of_misses hds.2 hrest]
  split
  · next d rest' =>
    rw [if_neg (by simp [hpoint d rest' rfl])]
  · rfl

theorem splitNumber_fractional {ds fs rest : List Char} (hds : IsDigits ds) (hfs : IsDigits fs)
    (hrest : Misses Char.isDigit rest) :
    splitNumber (ds ++ '.' :: fs ++ rest) = (ds ++ '.' :: fs, rest) := by
  obtain ⟨hne, hfs⟩ := hfs
  obtain ⟨f, fs, rfl⟩ := List.exists_cons_of_ne_nil hne
  have hpoint : Misses Char.isDigit ('.' :: (f :: fs) ++ rest) := by
    intro c hfirst
    cases hfirst
    decide
  unfold splitNumber
  rw [List.append_assoc, takeWhile_eq_of_misses hds.2 hpoint, dropWhile_eq_of_misses hds.2 hpoint]
  show (if f.isDigit then _ else _) = _
  rw [if_pos (hfs f List.mem_cons_self)]
  show (ds ++ '.' :: (f :: fs ++ rest).takeWhile _, (f :: fs ++ rest).dropWhile _) = _
  rw [takeWhile_eq_of_misses hfs hrest, dropWhile_eq_of_misses hfs hrest]

theorem longest_splitNumber {c : Char} (h : c.isDigit) (cs : List Char) :
    Longest .number (splitNumber (c :: cs)).1 (splitNumber (c :: cs)).2 := by
  have hds := isDigits_takeWhile h cs
  have hmiss := misses_dropWhile Char.isDigit (c :: cs)
  unfold splitNumber
  split
  · next d rest hdrop =>
    split
    · next hd =>
      exact .fractional hds (isDigits_takeWhile hd rest) (misses_dropWhile _ _)
    · next hd =>
      rw [hdrop] at hmiss
      refine .integral hds hmiss ?_
      intro d' rest' hsplit
      cases hsplit
      simpa using hd
  · next hpoint => exact .integral hds hmiss fun d rest hrest => absurd hrest (hpoint d rest)

/-! ## One token -/

theorem isName_takeWhile {c : Char} (h : isNameStart c) (cs : List Char) :
    isName ((c :: cs).takeWhile isNameRest) := by
  rw [List.takeWhile_cons_of_pos (isNameRest_of_isNameStart h)]
  simp [isName, h]

/-- The token that is cut off is as long as it can be. -/
theorem longest_cutAt {c : Char} (h : isStart c) (cs : List Char) :
    Longest (cutAt c cs).kind (cutAt c cs).word (cutAt c cs).rest := by
  unfold cutAt
  split
  · next hdigit => exact longest_splitNumber hdigit cs
  · next hdigit =>
    split
    · next hname => exact .name (isName_takeWhile hname cs) (misses_dropWhile _ _)
    · next hname =>
      split
      · next hop => exact .operator hop
      · next hop =>
        refine .paren ?_
        simpa [isStart, hdigit, hname, hop] using h

theorem forall_isNameRest_of_isName {cs : List Char} (h : isName cs) : ∀ c ∈ cs, isNameRest c := by
  cases cs with
  | nil => cases h
  | cons c cs =>
    simp only [isName, Bool.and_eq_true, List.all_eq_true] at h
    intro d hd
    rcases List.mem_cons.mp hd with rfl | hd
    · exact isNameRest_of_isNameStart h.1
    · exact h.2 d hd

/-- A longest word starts with a character that can start a token, and is what is cut off there. -/
theorem Longest.cutAt_eq {kind : Kind} {word rest : List Char} (h : Longest kind word rest) :
    ∃ c cs, word ++ rest = c :: cs ∧ isStart c ∧ cutAt c cs = ⟨kind, word, rest⟩ := by
  cases h with
  | integral hds hrest hpoint =>
    have hsplit := splitNumber_integral hds hrest hpoint
    obtain ⟨d, ds, rfl⟩ := List.exists_cons_of_ne_nil hds.1
    have hd : d.isDigit := hds.2 d List.mem_cons_self
    refine ⟨d, ds ++ rest, rfl, by simp [isStart, hd], ?_⟩
    rw [List.cons_append] at hsplit
    simp [cutAt, hd, hsplit]
  | @fractional ds fs _ hds hfs hrest =>
    have hsplit := splitNumber_fractional hds hfs hrest
    obtain ⟨d, ds, rfl⟩ := List.exists_cons_of_ne_nil hds.1
    have hd : d.isDigit := hds.2 d List.mem_cons_self
    refine ⟨d, ds ++ '.' :: fs ++ rest, rfl, by simp [isStart, hd], ?_⟩
    rw [List.cons_append, List.cons_append] at hsplit
    simp only [cutAt, hd, if_true, hsplit, List.cons_append]
  | @name word rest hcs hrest =>
    cases word with
    | nil => cases hcs
    | cons c cs =>
      have hall := forall_isNameRest_of_isName hcs
      simp only [isName, Bool.and_eq_true] at hcs
      have hdigit : ¬ c.isDigit := by
        intro hdigit
        rw [isNameStart_eq_false_of_isDigit hdigit] at hcs
        cases hcs.1
      refine ⟨c, cs ++ rest, rfl, by simp [isStart, hcs.1], ?_⟩
      rw [cutAt, if_neg hdigit, if_pos hcs.1, ← List.cons_append, takeWhile_eq_of_misses hall hrest,
        dropWhile_eq_of_misses hall hrest]
  | @operator c rest hc =>
    have hname := isNameRest_eq_false_of_isOperator hc
    refine ⟨c, rest, rfl, by simp [isStart, hc], ?_⟩
    simp [cutAt, not_isDigit_of_isNameRest_eq_false hname,
      not_isNameStart_of_isNameRest_eq_false hname, hc]
  | @paren c rest hc =>
    have hname := isNameRest_eq_false_of_isParen hc
    refine ⟨c, rest, rfl, by simp [isStart, hc], ?_⟩
    simp [cutAt, not_isDigit_of_isNameRest_eq_false hname,
      not_isNameStart_of_isNameRest_eq_false hname, isOperator_eq_false_of_isParen hc]

theorem cut?_of_gap {g : List Char} (h : Gap g) : cut? g = none := by
  unfold cut?
  rw [List.dropWhile_eq_nil_iff.mpr (by simpa [Gap] using h)]

/-- After a gap the longest word is cut off. -/
theorem cut?_of_longest {kind : Kind} {g word rest : List Char} (hgap : Gap g)
    (h : Longest kind word rest) : cut? (g ++ word ++ rest) = some ⟨kind, word, rest⟩ := by
  obtain ⟨c, cs, happend, hstart, hcut⟩ := h.cutAt_eq
  unfold cut?
  rw [List.append_assoc, happend, List.dropWhile_append_of_pos (by simpa [Gap] using hgap),
    List.dropWhile_cons_of_neg (by simp [hstart])]
  exact congrArg some hcut

/-! ## All tokens -/

/-- The tokens are spread over the text in order, with gaps between them, and each is as long as it
can be. -/
inductive Munched : List Token → List Char → Prop
  | nil {g : List Char} (hgap : Gap g) : Munched [] g
  | cons {g cs : List Char} {t : Token} {ts : List Token} (hgap : Gap g)
      (hword : Longest t.kind t.text.toList cs) (hrest : Munched ts cs) :
      Munched (t :: ts) (g ++ t.text.toList ++ cs)

/-- The tokens spread over a text are the ones that are cut out of it. -/
theorem Munched.tokenizeChars_eq {ts : List Token} {cs : List Char} (h : Munched ts cs) :
    tokenizeChars cs = ts := by
  induction h with
  | nil hgap => exact tokenizeChars_of_none (cut?_of_gap hgap)
  | cons hgap hword _ ih =>
    rw [tokenizeChars_of_some (cut?_of_longest hgap hword), ih]
    simp [Cut.token]

/-- The tokens that are cut out of a text are spread over it. -/
theorem munched_tokenizeChars (cs : List Char) : Munched (tokenizeChars cs) cs := by
  -- on the length of the text, which each cut shortens
  induction hlength : cs.length using Nat.strong_induction_on generalizing cs with
  | _ n ih =>
    subst hlength
    have hsplit := List.takeWhile_append_dropWhile (p := (!isStart ·)) (l := cs)
    have hgap : Gap (cs.takeWhile (!isStart ·)) := fun c hc => by
      simpa using List.mem_takeWhile_imp hc
    cases hdrop : cs.dropWhile (!isStart ·) with
    | nil =>
      have hcut : cut? cs = none := by simp [cut?, hdrop]
      rw [tokenizeChars_of_none hcut]
      rw [hdrop, List.append_nil] at hsplit
      exact .nil (hsplit ▸ hgap)
    | cons c rest =>
      have hcut : cut? cs = some (cutAt c rest) := by simp [cut?, hdrop]
      have hstart : isStart c := by
        have := misses_dropWhile (!isStart ·) cs c (by rw [hdrop]; rfl)
        simpa using this
      have hrest := ih _ (length_rest_lt_of_cut? hcut) _ rfl
      have hword := longest_cutAt hstart rest
      rw [tokenizeChars_of_some hcut]
      have htext : (cutAt c rest).token.text.toList = (cutAt c rest).word := by simp [Cut.token]
      have happend : cs.takeWhile (!isStart ·) ++ (cutAt c rest).token.text.toList
          ++ (cutAt c rest).rest = cs := by
        rw [htext, List.append_assoc, word_append_rest_cutAt, ← hdrop, hsplit]
      rw [← htext] at hword
      have hmunched := Munched.cons (t := (cutAt c rest).token) hgap hword hrest
      rwa [happend] at hmunched

/-- Maximal munch: a text is cut into some tokens exactly if they are spread over it. -/
theorem tokenizeChars_eq_iff {cs : List Char} {ts : List Token} :
    tokenizeChars cs = ts ↔ Munched ts cs :=
  ⟨fun h => h ▸ munched_tokenizeChars cs, Munched.tokenizeChars_eq⟩

end InfixCalculator.Token
