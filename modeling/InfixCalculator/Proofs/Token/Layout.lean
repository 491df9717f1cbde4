import InfixCalculator.Proofs.Text.Bytes
import InfixCalculator.Proofs.Token.Separation

/-!
# Layouts of texts

A layout writes a text as gaps and tokens in turn, from a first gap to a last one. It is maximal if
no gap holds a character of which tokens are made, and no token could be longer where it stands.

* `longest_iff`: a longest word has the grammar of its kind and is complete before the rest.
* `Layout.exists_of_munched`, `Layout.Maximal.munched`: maximal layouts are the spreadings of tokens
  over a text, with the gaps named.
* `Layout.Maximal.unique`: a text has one maximal layout at most.
* `Layout.Maximal.bytewise`: the layout of a text is that of its bytes.
* `tokenize_layout`: every text has one maximal layout, and its tokens are those that are cut out.
-/

namespace InfixCalculator.Token

open Text (IsAscii)

/-! ## Characters of tokens -/

/-- No character is an ASCII letter, an ASCII digit, an underscore, an operator or a parenthesis. -/
def IsGap (g : List Char) : Prop :=
  ∀ c ∈ g, ¬ c.isAlphanum ∧ c ∉ ['_', '+', '-', '*', '/', '^', '(', ')']

theorem isStart_iff {c : Char} :
    isStart c ↔ c.isAlphanum ∨ c ∈ ['_', '+', '-', '*', '/', '^', '(', ')'] := by
  simp only [isStart, isNameStart, isOperator, isParen, Operator.all, Operator.symbolChar,
    Char.isAlphanum, List.any_cons, List.any_nil, Bool.or_eq_true, decide_eq_true_eq,
    Bool.false_eq_true, or_false, List.mem_cons, List.not_mem_nil, eq_comm (b := c)]
  tauto

theorem isGap_iff {g : List Char} : IsGap g ↔ Gap g := by
  refine forall₂_congr fun c _ => ?_
  rw [← not_or, ← isStart_iff, Bool.not_eq_true]

theorem isAscii_of_isStart {c : Char} (h : isStart c) : IsAscii c := by
  rcases isStart_iff.mp h with h | h
  · have halpha : c.isAlpha = (c.isUpper || c.isLower) := rfl
    have hupper : c.isUpper = decide ('A'.val ≤ c.val ∧ c.val ≤ 'Z'.val) := rfl
    have hlower : c.isLower = (decide ('a'.val ≤ c.val) && decide (c.val ≤ 'z'.val)) := rfl
    have hZ : 'Z'.val.toNat = 90 := rfl
    have hz : 'z'.val.toNat = 122 := rfl
    have hnine : '9'.val.toNat = 57 := rfl
    simp only [Char.isAlphanum, halpha, Char.isDigit, hupper, hlower, Bool.or_eq_true,
      Bool.and_eq_true, decide_eq_true_eq, ge_iff_le, UInt32.le_iff_toNat_le] at h
    show c.val.toNat < 128
    omega
  · exact Text.forall_isAscii_of_all (by decide) c h

theorem isAscii_of_isNameRest {c : Char} (h : isNameRest c) : IsAscii c :=
  isAscii_of_isStart (isStart_of_isNameRest h)

theorem isAscii_of_isDigit {c : Char} (h : c.isDigit) : IsAscii c :=
  isAscii_of_isNameRest (isNameRest_of_isDigit h)

theorem IsPlainNumber.isAscii {cs : List Char} (h : IsPlainNumber cs) : ∀ c ∈ cs, IsAscii c := by
  cases h with
  | integral hds => exact fun c hc => isAscii_of_isDigit (hds.2 c hc)
  | fractional hds hfs =>
    rw [List.forall_mem_append, List.forall_mem_cons]
    exact ⟨fun c hc => isAscii_of_isDigit (hds.2 c hc), by decide,
      fun c hc => isAscii_of_isDigit (hfs.2 c hc)⟩

/-- Operands and signs are written in ASCII. -/
theorem isAscii_of_isOperand_or_isSign {t : Token} (h : t.IsOperand ∨ t.IsSign) :
    ∀ c ∈ t.text.toList, IsAscii c := by
  rcases h with h | ⟨op, rfl⟩ | rfl | rfl
  · obtain ⟨kind, text⟩ := t
    cases kind with
    | number => exact IsPlainNumber.isAscii h
    | identifier => exact fun c hc => isAscii_of_isNameRest (forall_isNameRest_of_isName h c hc)
    | operator => cases h
    | punctuation => cases h
  · exact Text.forall_isAscii_of_all (by cases op <;> decide)
  · exact Text.forall_isAscii_of_all (by decide)
  · exact Text.forall_isAscii_of_all (by decide)

/-! ## Complete tokens -/

/-- The text that comes after a token does not prolong it: no letter, digit or underscore goes on
with a name, no digit goes on with a number, and a number without a point gets no fraction. -/
def CompleteBefore (t : Token) (rest : List Char) : Prop :=
  match t.kind with
  | .identifier => Misses isNameRest rest
  | .number => Misses Char.isDigit rest ∧ ('.' ∉ t.text.toList → NoFraction rest)
  | _ => True

theorem IsDigits.point_not_mem {ds : List Char} (h : IsDigits ds) : '.' ∉ ds := fun hmem =>
  absurd (h.2 '.' hmem) (by decide)

theorem Longest.completeBefore {t : Token} {rest : List Char}
    (h : Longest t.kind t.text.toList rest) : t.CompleteBefore rest := by
  obtain ⟨kind, text⟩ := t
  change Longest kind text.toList rest at h
  generalize hcs : text.toList = cs at h
  cases h with
  | integral _ hrest hpoint => exact ⟨hrest, fun _ => hpoint⟩
  | @fractional ds fs _ hds hfs hrest =>
    have hmem : '.' ∈ text.toList := by simp [hcs]
    exact ⟨hrest, fun hpoint => absurd hmem hpoint⟩
  | name _ hrest => exact hrest
  | operator => trivial
  | paren => trivial

theorem IsOperand.longest_of_completeBefore {t : Token} {rest : List Char} (h : t.IsOperand)
    (hrest : t.CompleteBefore rest) : Longest t.kind t.text.toList rest := by
  obtain ⟨kind, text⟩ := t
  cases kind with
  | number =>
    obtain ⟨hdigit, hpoint⟩ := hrest
    change IsPlainNumber text.toList at h
    show Longest .number text.toList rest
    dsimp only at hpoint
    generalize text.toList = cs at h hpoint ⊢
    cases h with
    | integral hds => exact .integral hds hdigit (hpoint hds.point_not_mem)
    | fractional hds hfs => exact .fractional hds hfs hdigit
  | identifier => exact .name h hrest
  | operator => cases h
  | punctuation => cases h

/-- A word is longest where it stands if it has the grammar of its kind and is complete there. -/
theorem longest_iff {t : Token} {rest : List Char} :
    Longest t.kind t.text.toList rest ↔ (t.IsOperand ∨ t.IsSign) ∧ t.CompleteBefore rest := by
  refine ⟨fun h => ⟨h.isOperand_or_isSign, h.completeBefore⟩, fun ⟨hshape, hrest⟩ => ?_⟩
  rcases hshape with hoperand | hsign
  · exact hoperand.longest_of_completeBefore hrest
  · exact hsign.longest rest

/-! ## Layouts -/

/-- A text written as gaps and tokens in turn: `g₀ t₁ g₁ … tₙ gₙ`. -/
inductive Layout where
  | last (gap : List Char)
  | token (gap : List Char) (t : Token) (rest : Layout)

namespace Layout

/-- The text that is laid out. -/
def chars : Layout → List Char
  | last gap => gap
  | token gap t rest => gap ++ t.text.toList ++ rest.chars

/-- The tokens in order. -/
def tokens : Layout → List Token
  | last _ => []
  | token _ t rest => t :: rest.tokens

/-- The gaps hold nothing of which tokens are made, every token has the grammar of its kind, and
none is prolonged by what comes after it. -/
def Maximal : Layout → Prop
  | last gap => IsGap gap
  | token gap t rest =>
    IsGap gap ∧ (t.IsOperand ∨ t.IsSign) ∧ t.CompleteBefore rest.chars ∧ rest.Maximal

/-- The layout of the bytes of a text, each read as a character of its own: a gap between two tokens
is read byte by byte, the tokens stay as they are. -/
def bytewise : Layout → Layout
  | last gap => last (Text.bytewise gap)
  | token gap t rest => token (Text.bytewise gap) t rest.bytewise

theorem Maximal.munched {layout : Layout} (h : layout.Maximal) :
    Munched layout.tokens layout.chars := by
  induction layout with
  | last gap => exact .nil (isGap_iff.mp h)
  | token gap t rest ih =>
    obtain ⟨hgap, hshape, hcomplete, hrest⟩ := h
    exact .cons (isGap_iff.mp hgap) (longest_iff.mpr ⟨hshape, hcomplete⟩) (ih hrest)

theorem exists_of_munched {ts : List Token} {cs : List Char} (h : Munched ts cs) :
    ∃ layout : Layout, layout.Maximal ∧ layout.chars = cs ∧ layout.tokens = ts := by
  induction h with
  | @nil gap hgap => exact ⟨last gap, isGap_iff.mpr hgap, rfl, rfl⟩
  | @cons gap cs t ts hgap hword _ ih =>
    obtain ⟨rest, hrest, rfl, rfl⟩ := ih
    obtain ⟨hshape, hcomplete⟩ := longest_iff.mp hword
    exact ⟨token gap t rest, ⟨isGap_iff.mpr hgap, hshape, hcomplete, hrest⟩, rfl, rfl⟩

/-- What is cut off a text that is laid out is the first token of the layout. -/
theorem Maximal.cut?_token {gap : List Char} {t : Token} {rest : Layout}
    (h : (token gap t rest).Maximal) :
    cut? (token gap t rest).chars = some ⟨t.kind, t.text.toList, rest.chars⟩ := by
  obtain ⟨hgap, hshape, hcomplete, -⟩ := h
  exact cut?_of_longest (isGap_iff.mp hgap) (longest_iff.mpr ⟨hshape, hcomplete⟩)

theorem Maximal.cut?_last {gap : List Char} (h : (last gap).Maximal) :
    cut? (last gap).chars = none := cut?_of_gap (isGap_iff.mp h)

/-- A text has one maximal layout at most: the first cut fixes its first gap and token. -/
theorem Maximal.unique {layout other : Layout} (h : layout.Maximal) (hother : other.Maximal)
    (hchars : layout.chars = other.chars) : layout = other := by
  induction layout generalizing other with
  | last gap =>
    cases other with
    | last gap' => exact congrArg last hchars
    | token gap' t' rest' =>
      have hcut := hother.cut?_token
      rw [← hchars, h.cut?_last] at hcut
      cases hcut
  | token gap t rest ih =>
    cases other with
    | last gap' =>
      have hcut := hother.cut?_last
      rw [← hchars, h.cut?_token] at hcut
      cases hcut
    | token gap' t' rest' =>
      have hcut := hother.cut?_token
      rw [← hchars, h.cut?_token] at hcut
      obtain ⟨hkind, htext, hrest⟩ := Cut.mk.inj (Option.some.inj hcut)
      obtain rfl : t = t' := by
        obtain ⟨kind, text⟩ := t
        obtain ⟨kind', text'⟩ := t'
        exact congr (congrArg Token.mk hkind) (String.toList_inj.mp htext)
      obtain rfl : rest = rest' := ih h.2.2.2 hother.2.2.2 hrest
      have hgap : gap = gap' := by simpa [chars] using hchars
      rw [hgap]

/-! ## Bytes -/

theorem Maximal.chars_bytewise {layout : Layout} (h : layout.Maximal) :
    layout.bytewise.chars = Text.bytewise layout.chars := by
  induction layout with
  | last gap => rfl
  | token gap t rest ih =>
    obtain ⟨-, hshape, -, hrest⟩ := h
    have hword := Text.bytewise_eq_self (isAscii_of_isOperand_or_isSign hshape)
    rw [bytewise, chars, chars, ih hrest, Text.bytewise_append, Text.bytewise_append, hword]

theorem tokens_bytewise (layout : Layout) : layout.bytewise.tokens = layout.tokens := by
  induction layout with
  | last gap => rfl
  | token gap t rest ih => exact congrArg (t :: ·) ih

end Layout

theorem IsGap.bytewise {g : List Char} (h : IsGap g) : IsGap (Text.bytewise g) := by
  rw [isGap_iff] at h ⊢
  exact Text.eq_false_of_mem_bytewise (fun _ => isAscii_of_isStart) h

/-- A point with a digit after it is there byte by byte only if it is there. -/
theorem NoFraction.bytewise {cs : List Char} (h : NoFraction cs) : NoFraction (Text.bytewise cs) := by
  intro d rest hsplit
  cases cs with
  | nil => cases hsplit
  | cons c cs =>
    rw [Text.bytewise_cons] at hsplit
    by_cases hascii : IsAscii c
    · rw [Text.byteChars_of_isAscii hascii, List.singleton_append] at hsplit
      obtain ⟨rfl, hrest⟩ := List.cons.inj hsplit
      have hmiss : Misses Char.isDigit cs := by
        intro d hd
        obtain ⟨ds, rfl⟩ := List.head?_eq_some_iff.mp hd
        exact h d ds rfl
      have hmiss' := Text.misses_bytewise (fun _ => isAscii_of_isDigit) hmiss
      rw [hrest] at hmiss'
      exact hmiss' d rfl
    · obtain ⟨first, others, hbytes⟩ := List.exists_cons_of_ne_nil (Text.byteChars_ne_nil c)
      rw [hbytes] at hsplit
      obtain ⟨rfl, -⟩ := List.cons.inj hsplit
      have hfirst := Text.not_isAscii_of_mem_byteChars hascii (hbytes ▸ List.mem_cons_self)
      exact absurd (by decide) hfirst

theorem CompleteBefore.bytewise {t : Token} {rest : List Char} (h : t.CompleteBefore rest) :
    t.CompleteBefore (Text.bytewise rest) := by
  obtain ⟨kind, text⟩ := t
  cases kind with
  | identifier => exact Text.misses_bytewise (fun _ => isAscii_of_isNameRest) h
  | number =>
    exact ⟨Text.misses_bytewise (fun _ => isAscii_of_isDigit) h.1, fun hpoint => (h.2 hpoint).bytewise⟩
  | operator => trivial
  | punctuation => trivial

/-- The layout of the bytes is maximal if that of the text is. -/
theorem Layout.Maximal.bytewise {layout : Layout} (h : layout.Maximal) :
    layout.bytewise.Maximal := by
  induction layout with
  | last gap => exact IsGap.bytewise h
  | token gap t rest ih =>
    obtain ⟨hgap, hshape, hcomplete, hrest⟩ := h
    refine ⟨hgap.bytewise, hshape, ?_, ih hrest⟩
    rw [hrest.chars_bytewise]
    exact hcomplete.bytewise

/-! ## Maximal munch -/

/-- Every text can be laid out in exactly one way with nothing of which tokens are made in the gaps
and no token that could be longer. The tokens of this layout, in order, are those that are cut out
of the text. The bytes of the text, too, can be laid out in exactly one way, and it is the same:
they have the same tokens with the bytes of the same gaps between them, so a reader of bytes never
cuts inside a character. -/
theorem tokenize_layout (text : String) :
    ∃ layout : Layout, layout.Maximal ∧ layout.chars = text.toList ∧
      (∀ other : Layout, other.Maximal → other.chars = text.toList → other = layout) ∧
      tokenize text = layout.tokens ∧
      (∀ other : Layout, other.Maximal →
        other.chars = (Text.encode text).map Text.byteChar → other = layout.bytewise) ∧
      layout.bytewise.Maximal ∧
      layout.bytewise.chars = (Text.encode text).map Text.byteChar ∧
      layout.bytewise.tokens = tokenize text ∧
      tokenizeChars ((Text.encode text).map Text.byteChar) = tokenize text := by
  obtain ⟨layout, hmaximal, hchars, htokens⟩ :=
    Layout.exists_of_munched (munched_tokenizeChars text.toList)
  have hbytes : layout.bytewise.chars = (Text.encode text).map Text.byteChar := by
    rw [hmaximal.chars_bytewise, hchars, Text.map_byteChar_encode]
  have htokens' : layout.bytewise.tokens = tokenize text := by
    rw [layout.tokens_bytewise, htokens, tokenize]
  refine ⟨layout, hmaximal, hchars, ?_, htokens.symm, ?_, hmaximal.bytewise, hbytes, htokens', ?_⟩
  · intro other hother heq
    exact hother.unique hmaximal (heq.trans hchars.symm)
  · intro other hother heq
    exact hother.unique hmaximal.bytewise (heq.trans hbytes.symm)
  · rw [← hbytes, ← htokens', hmaximal.bytewise.munched.tokenizeChars_eq]

end InfixCalculator.Token
