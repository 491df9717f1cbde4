import InfixCalculator.Proofs.Postfix.Meanings

/-!
# Observing a source

Whoever reads a source looks at the token under its cursor and moves past it, in any order and any
number of times, also when it is used up. All that can be seen this way are the tokens of the
source, each at its position.

* `TokenSource.observe_eq_map`: what is seen of a source.
* `TokenSource.observe_eq_none`: a source that is used up shows nothing more.
* `Token.cursor_indistinguishable`: a cursor on a text and the list of its tokens show the same.
-/

namespace InfixCalculator

namespace TokenSource

/-- What can be done with a source. -/
inductive Move where
  | look
  | advance
deriving DecidableEq, Repr

/-- The positions at which a reader looks who starts at the given one. -/
def Move.positions (start : Nat) : List Move → List Nat
  | [] => []
  | look :: moves => start :: positions start moves
  | advance :: moves => positions (start + 1) moves

variable {σ : Type} [TokenSource σ]

/-- The source after some moves. -/
def moved (source : σ) : List Move → σ
  | [] => source
  | .look :: moves => moved source moves
  | .advance :: moves => moved (advance source) moves

/-- What each look shows, in order. -/
def observe (source : σ) : List Move → List (Option Token)
  | [] => []
  | .look :: moves => current source :: observe source moves
  | .advance :: moves => observe (advance source) moves

/-! ## One move -/

theorem current_eq_head? (source : σ) : current source = (tokens source).head? := by
  cases h : current source with
  | none => rw [tokens_of_none h, List.head?_nil]
  | some t => rw [tokens_of_some h, List.head?_cons]

theorem tokens_advance (source : σ) : tokens (advance source) = (tokens source).tail := by
  cases h : current source with
  | none => rw [tokens_of_none h, tokens_of_none (current_advance_eq_none h), List.tail_nil]
  | some t => rw [tokens_of_some h, List.tail_cons]

/-! ## Any number of moves -/

/-- A source of which the tokens from some position on are left shows those. -/
theorem observe_eq_map_of_drop {source : σ} {ts : List Token} {start : Nat}
    (h : tokens source = ts.drop start) (moves : List Move) :
    observe source moves = (Move.positions start moves).map fun i => ts[i]? := by
  induction moves generalizing source start with
  | nil => rfl
  | cons move moves ih =>
    cases move with
    | look =>
      have hcurrent : current source = ts[start]? := by
        rw [current_eq_head?, h, List.head?_drop]
      rw [observe, Move.positions, List.map_cons, hcurrent, ih h]
    | advance =>
      have hrest : tokens (advance source) = ts.drop (start + 1) := by
        rw [tokens_advance, h, List.tail_drop]
      rw [observe, Move.positions, ih hrest]

theorem observe_eq_map (source : σ) (moves : List Move) :
    observe source moves = (Move.positions 0 moves).map fun i => (tokens source)[i]? :=
  observe_eq_map_of_drop (List.drop_zero).symm moves

/-- A source that shows nothing never shows anything again. -/
theorem observe_eq_none {source : σ} (h : current source = none) (moves : List Move) :
    ∀ seen ∈ observe source moves, seen = none := by
  induction moves generalizing source with
  | nil => nofun
  | cons move moves ih =>
    cases move with
    | look =>
      intro seen hseen
      rcases List.mem_cons.mp hseen with rfl | hseen
      · exact h
      · exact ih h seen hseen
    | advance => exact ih (current_advance_eq_none h)

/-- A list shows its own tokens. -/
theorem tokens_list (ts : List Token) : tokens ts = ts := by
  induction ts with
  | nil => exact tokens_of_none rfl
  | cons t ts ih =>
    refine (tokens_of_some (t := t) rfl).trans ?_
    exact congrArg (t :: ·) ih

end TokenSource

namespace Token

open TokenSource

/-- A cursor on a text and the list of its tokens cannot be told apart, whatever is done with them:
each look shows the token at the position reached, or nothing from the end on. So they have the same
program or the same fault, with the same records. -/
theorem cursor_indistinguishable (text : String) :
    (∀ moves,
      observe (Cursor.ofText text) moves = observe (tokenize text) moves ∧
      observe (tokenize text) moves =
        (Move.positions 0 moves).map fun i => (tokenize text)[i]?) ∧
    (∀ moves moves',
      (current (moved (Cursor.ofText text) moves) = none →
        ∀ seen ∈ observe (moved (Cursor.ofText text) moves) moves', seen = none) ∧
      (current (moved (tokenize text) moves) = none →
        ∀ seen ∈ observe (moved (tokenize text) moves) moves', seen = none)) ∧
    ∀ table : Variables,
      Postfix.ofTokens table (Cursor.ofText text) = Postfix.ofTokens table (tokenize text) := by
  refine ⟨?_, ?_, ?_⟩
  · intro moves
    have hlist := observe_eq_map (tokenize text) moves
    rw [tokens_list] at hlist
    have hcursor := observe_eq_map (Cursor.ofText text) moves
    rw [tokens_ofText] at hcursor
    exact ⟨hcursor.trans hlist.symm, hlist⟩
  · intro moves moves'
    exact ⟨fun h => observe_eq_none h moves', fun h => observe_eq_none h moves'⟩
  · intro table
    exact Postfix.ofTokens_ofText text

end Token

end InfixCalculator
