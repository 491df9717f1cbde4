import InfixCalculator.Proofs.Postfix.Meanings

/-!
# Roles

The role of a token in an expression is that of the symbol it means, and does not depend on the
variables. Roles tell whether parentheses match, and whether there are as many operands as the
operators need.
-/

namespace InfixCalculator

/-- The part that a token or a symbol plays in an expression. -/
inductive Role where
  | operand
  | operator
  | opening
  | closing
deriving DecidableEq

namespace Role

/-- The depth of nesting after some roles, from a given one; none if a parenthesis closes that was
not opened. -/
def nesting : Nat → List Role → Option Nat
  | depth, [] => some depth
  | depth, opening :: rs => nesting (depth + 1) rs
  | 0, closing :: _ => none
  | depth + 1, closing :: rs => nesting depth rs
  | depth, _ :: rs => nesting depth rs

/-- The roles in a whole expression: parentheses match, and there is one operand more than there are
operators. Where they stand is left open. -/
structure Complete (rs : List Role) : Prop where
  balanced : nesting 0 rs = some 0
  count : rs.count operand = rs.count operator + 1

end Role

/-- The role of a token; a punctuation that is no parenthesis has none. -/
def Token.role? (t : Token) : Option Role :=
  match t.kind with
  | .number => some .operand
  | .identifier => some .operand
  | .operator => some .operator
  | .punctuation =>
    if t.text = "(" then some .opening else if t.text = ")" then some .closing else none

namespace Postfix

def Symbol.role : Symbol → Role
  | value _ => .operand
  | operator _ => .operator
  | opening => .opening
  | closing => .closing

variable {table : Variables}

theorem role?_of_ofToken {t : Token} {symbol : Symbol}
    (h : Symbol.ofToken table t = .ok symbol) : t.role? = some symbol.role := by
  obtain ⟨kind, text⟩ := t
  cases kind with
  | number =>
    simp only [Symbol.ofToken] at h
    split at h
    · cases h
      rfl
    · cases h
  | identifier =>
    simp only [Symbol.ofToken] at h
    split at h
    · cases h
      rfl
    · cases h
  | operator =>
    simp only [Symbol.ofToken] at h
    split at h
    · cases h
      rfl
    · cases h
  | punctuation =>
    simp only [Symbol.ofToken] at h
    simp only [Token.role?]
    split at h
    · next hopen =>
      cases h
      rw [if_pos hopen]
      rfl
    · next hopen =>
      split at h
      · next hclose =>
        cases h
        rw [if_neg hopen, if_pos hclose]
        rfl
      · cases h

theorem filterMap_role?_of_meanings {ts : List Token} {symbols : List Symbol}
    (h : meanings table ts = .ok symbols) : ts.filterMap Token.role? = symbols.map Symbol.role := by
  rw [meanings_eq_ok_iff] at h
  induction ts generalizing symbols with
  | nil =>
    cases symbols with
    | nil => rfl
    | cons => cases h
  | cons t ts ih =>
    cases symbols with
    | nil => cases h
    | cons symbol symbols =>
      obtain ⟨ht, hts⟩ := List.cons.inj h
      rw [List.filterMap_cons_some (role?_of_ofToken ht), ih hts, List.map_cons]

end Postfix

end InfixCalculator
