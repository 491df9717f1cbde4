import InfixCalculator.Token.Lexer

/-!
# Sources of tokens

A source shows the token under its cursor, until there is none, and can advance past it. Two
sources are given: a list of tokens, and a `Cursor` over a text, which cuts each token only when
it is reached.

The class asks for a bound on the tokens to come, so that reading a source ends, and for a source
that has run out to stay so.
-/

namespace InfixCalculator

class TokenSource (σ : Type) where
  /-- The token under the cursor; none once the source is used up. -/
  current : σ → Option Token
  /-- Moves past the token under the cursor. -/
  advance : σ → σ
  /-- A bound on the number of tokens to come. -/
  remaining : σ → Nat
  /-- Moving past a token lowers the bound. -/
  remaining_advance_lt : ∀ {s : σ} {t : Token}, current s = some t → remaining (advance s) < remaining s
  /-- A source that is used up stays so. -/
  current_advance_eq_none : ∀ {s : σ}, current s = none → current (advance s) = none

instance : TokenSource (List Token) where
  current := List.head?
  advance := List.tail
  remaining := List.length
  remaining_advance_lt := by
    intro s t h
    cases s with
    | nil => cases h
    | cons => simp
  current_advance_eq_none := by
    intro s h
    cases s with
    | nil => rfl
    | cons => cases h

namespace Token

/-- A lazy source: the token under the cursor, together with the text after it. -/
structure Cursor where
  cut : Option Cut
deriving DecidableEq, Repr

namespace Cursor

/-- The cursor on the first token of a text. -/
def ofText (text : String) : Cursor := ⟨cut? text.toList⟩

def current (c : Cursor) : Option Token := c.cut.map Cut.token

def advance (c : Cursor) : Cursor := ⟨c.cut.bind fun cut => cut? cut.rest⟩

/-- A bound on the tokens to come: each takes at least one character. -/
def remaining (c : Cursor) : Nat :=
  match c.cut with
  | none => 0
  | some cut => cut.rest.length + 1

theorem remaining_cut?_le (cs : List Char) : remaining ⟨cut? cs⟩ ≤ cs.length := by
  unfold remaining
  split
  · exact Nat.zero_le _
  · next h => exact length_rest_lt_of_cut? h

end Cursor

end Token

instance : TokenSource Token.Cursor where
  current := Token.Cursor.current
  advance := Token.Cursor.advance
  remaining := Token.Cursor.remaining
  remaining_advance_lt := by
    rintro ⟨_ | cut⟩ t h
    · cases h
    · exact Nat.lt_succ_of_le (Token.Cursor.remaining_cut?_le cut.rest)
  current_advance_eq_none := by
    rintro ⟨_ | cut⟩ h
    · rfl
    · cases h

end InfixCalculator
