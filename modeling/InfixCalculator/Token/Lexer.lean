import InfixCalculator.Token.Basic

/-!
# Cutting tokens out of a text

Characters that cannot start a token are skipped without complaint. From the first one that can, the
longest token is cut: digits with an optional point and at least one digit after it, an identifier,
or the single character of an operator or a parenthesis.

* `cut?`: the first token of a text and what follows it.
* `tokenize`: all tokens of a text.
* `word_append_rest_cutAt`: a token and what follows it make up the text it was cut from.
* `length_rest_lt_of_cut?`: what follows a token is shorter than the text, so cutting ends.
-/

namespace InfixCalculator.Token

/-! ## One token -/

/-- A token cut off the front of a text: its kind, its characters, and what follows it. -/
structure Cut where
  kind : Kind
  word : List Char
  rest : List Char
deriving DecidableEq, Repr

def Cut.token (cut : Cut) : Token := ⟨cut.kind, String.ofList cut.word⟩

/-- The digits of a number and its rest. A point belongs to the number only if a digit follows. -/
def splitNumber (cs : List Char) : List Char × List Char :=
  let integral := cs.takeWhile Char.isDigit
  match cs.dropWhile Char.isDigit with
  | '.' :: d :: rest =>
    if d.isDigit then
      (integral ++ '.' :: (d :: rest).takeWhile Char.isDigit, (d :: rest).dropWhile Char.isDigit)
    else
      (integral, '.' :: d :: rest)
  | rest => (integral, rest)

/-- The token that starts with the first character `c` of a text, if one can start with it. Any
other character is cut off as a single sign. -/
def cutAt (c : Char) (cs : List Char) : Cut :=
  if c.isDigit then
    let (number, rest) := splitNumber (c :: cs)
    ⟨.number, number, rest⟩
  else if isNameStart c then
    ⟨.identifier, (c :: cs).takeWhile isNameRest, (c :: cs).dropWhile isNameRest⟩
  else if isOperator c then ⟨.operator, [c], cs⟩
  else ⟨.punctuation, [c], cs⟩

/-- The first token of a text and what follows it. -/
def cut? (cs : List Char) : Option Cut :=
  match cs.dropWhile (!isStart ·) with
  | [] => none
  | c :: rest => some (cutAt c rest)

/-! ## Nothing is lost -/

theorem append_splitNumber (cs : List Char) : (splitNumber cs).1 ++ (splitNumber cs).2 = cs := by
  have h := List.takeWhile_append_dropWhile (p := Char.isDigit) (l := cs)
  unfold splitNumber
  split
  · next d rest hdrop =>
    have hd := List.takeWhile_append_dropWhile (p := Char.isDigit) (l := d :: rest)
    rw [hdrop] at h
    split
    · simp only [List.append_assoc, List.cons_append, hd, h]
    · exact h
  · exact h

theorem splitNumber_ne_nil {c : Char} (h : c.isDigit) (cs : List Char) :
    (splitNumber (c :: cs)).1 ≠ [] := by
  unfold splitNumber
  split
  · split <;> simp [h]
  · simp [h]

/-- A token and what follows it make up the text. -/
theorem word_append_rest_cutAt (c : Char) (cs : List Char) :
    (cutAt c cs).word ++ (cutAt c cs).rest = c :: cs := by
  unfold cutAt
  split
  · exact append_splitNumber (c :: cs)
  · split
    · exact List.takeWhile_append_dropWhile
    · split <;> rfl

theorem word_cutAt_ne_nil (c : Char) (cs : List Char) : (cutAt c cs).word ≠ [] := by
  unfold cutAt
  split
  · next h => exact splitNumber_ne_nil h cs
  · split
    · next h => simp [isNameRest_of_isNameStart h]
    · split <;> simp

theorem length_rest_lt_of_cut? {cs : List Char} {cut : Cut} (h : cut? cs = some cut) :
    cut.rest.length < cs.length := by
  unfold cut? at h
  split at h
  · cases h
  · next c cs' hdrop =>
    have hsuffix := (List.dropWhile_suffix (l := cs) (!isStart ·)).length_le
    have happend := congrArg List.length (word_append_rest_cutAt c cs')
    have hword := List.length_pos_iff.mpr (word_cutAt_ne_nil c cs')
    cases h
    rw [hdrop] at hsuffix
    simp only [List.length_append, List.length_cons] at *
    omega

/-! ## All tokens -/

def tokenizeChars (cs : List Char) : List Token :=
  match _h : cut? cs with
  | none => []
  | some cut => cut.token :: tokenizeChars cut.rest
termination_by cs.length
decreasing_by exact length_rest_lt_of_cut? _h

/-- All tokens of a text, in order. -/
def tokenize (text : String) : List Token := tokenizeChars text.toList

theorem tokenizeChars_of_none {cs : List Char} (h : cut? cs = none) : tokenizeChars cs = [] := by
  rw [tokenizeChars]
  split
  · rfl
  · next h' => simp [h] at h'

theorem tokenizeChars_of_some {cs : List Char} {cut : Cut} (h : cut? cs = some cut) :
    tokenizeChars cs = cut.token :: tokenizeChars cut.rest := by
  rw [tokenizeChars]
  split
  · next h' => simp [h] at h'
  · next h' =>
    rw [h] at h'
    cases h'
    rfl

end InfixCalculator.Token
