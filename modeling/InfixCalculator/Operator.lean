/-!
# Binary operators

The five operators with their symbols, their precedence, and what they compute on binary64 values.
`ofSymbol?` reads back exactly the symbols.
-/

namespace InfixCalculator

inductive Operator where
  | add
  | sub
  | mul
  | div
  | pow
deriving DecidableEq, Repr

namespace Operator

def all : List Operator := [add, sub, mul, div, pow]

/-- The character an operator is written with. -/
def symbolChar : Operator → Char
  | add => '+'
  | sub => '-'
  | mul => '*'
  | div => '/'
  | pow => '^'

def symbol (op : Operator) : String := String.ofList [op.symbolChar]

/-- The operator with the given text. -/
def ofSymbol? (text : String) : Option Operator := all.find? fun op => op.symbol = text

/-- How tightly an operator binds. -/
def precedence : Operator → Nat
  | add => 1
  | sub => 1
  | mul => 2
  | div => 2
  | pow => 3

/-- The value an operator computes from its left and its right operand. -/
def apply : Operator → Float → Float → Float
  | add, x, y => x + y
  | sub, x, y => x - y
  | mul, x, y => x * y
  | div, x, y => x / y
  | pow, x, y => x.pow y

theorem mem_all (op : Operator) : op ∈ all := by cases op <;> decide

@[simp] theorem ofSymbol?_symbol (op : Operator) : ofSymbol? op.symbol = some op := by
  cases op <;> decide

theorem ofSymbol?_eq_some_iff {text : String} {op : Operator} :
    ofSymbol? text = some op ↔ text = op.symbol := by
  constructor
  · intro h
    have := List.find?_some h
    simpa [eq_comm] using this
  · rintro rfl
    exact ofSymbol?_symbol op

theorem precedence_pos (op : Operator) : 0 < op.precedence := by cases op <;> decide

end Operator

end InfixCalculator
