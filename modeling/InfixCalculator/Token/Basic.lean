import InfixCalculator.Operator

/-!
# Tokens

A token is a piece of text with its kind. The character classes below decide where tokens start
and how far they reach; all of them are classes of ASCII characters, so no other character is ever
part of a token that was cut out of a text.
-/

namespace InfixCalculator

inductive Token.Kind where
  | identifier
  | number
  | operator
  | punctuation
deriving DecidableEq, Repr

/-- A token. Its text is arbitrary; `Token.tokenize` makes only some of them. -/
structure Token where
  kind : Token.Kind
  text : String
deriving DecidableEq, Repr

namespace Token

def Kind.name : Kind → String
  | identifier => "identifier"
  | number => "number"
  | operator => "operator"
  | punctuation => "punctuation"

/-- An ASCII letter or an underscore: an identifier starts with one. -/
def isNameStart (c : Char) : Bool := c.isAlpha || c = '_'

/-- An ASCII letter, an ASCII digit or an underscore: an identifier goes on with these. -/
def isNameRest (c : Char) : Bool := c.isAlphanum || c = '_'

/-- The symbol of an operator. -/
def isOperator (c : Char) : Bool := Operator.all.any fun op => op.symbolChar = c

def isParen (c : Char) : Bool := c = '(' || c = ')'

/-- Whether a token can start with the character. -/
def isStart (c : Char) : Bool := c.isDigit || isNameStart c || isOperator c || isParen c

/-- Whether a text is an identifier. -/
def isName : List Char → Bool
  | [] => false
  | c :: cs => isNameStart c && cs.all isNameRest

theorem isNameRest_of_isNameStart {c : Char} (h : isNameStart c) : isNameRest c := by
  simp only [isNameStart, isNameRest, Char.isAlphanum, Bool.or_eq_true] at *
  rcases h with h | h
  · exact Or.inl (Or.inl h)
  · exact Or.inr h

end Token

end InfixCalculator
