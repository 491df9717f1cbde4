import InfixCalculator.Postfix.Basic
import InfixCalculator.Postfix.Symbol

/-!
# The yard

A yard turns infix into postfix, one symbol at a time. Values go straight to its output. Operators
wait on its stack, above the parentheses still open, until an operator that binds no tighter, a
closing parenthesis or the end sends them to the output. Operators of equal precedence leave before
the new one enters, so all of them associate to the left.

Parentheses need not match: a closing one without a partner sends everything on the stack to the
output, and one left open at the end is dropped.
-/

namespace InfixCalculator.Postfix

/-- What waits on the stack of a yard. -/
inductive Pending where
  | operator (op : Operator)
  | paren
deriving DecidableEq, Repr

namespace Pending

/-- The precedence of an operator; a parenthesis ranks below all of them. -/
def rank : Pending → Nat
  | operator op => op.precedence
  | paren => 0

/-- The operator that waits, if it is one. -/
def operator? : Pending → Option Operator
  | operator op => some op
  | paren => none

/-- The items that a part of the stack becomes, from its top down; parentheses become nothing. -/
def items (stack : List Pending) : List Item := (stack.filterMap operator?).map .operator

end Pending

/-- The output so far and the stack, its top first. -/
structure Yard where
  output : Array Item
  stack : List Pending
deriving DecidableEq

namespace Yard

/-- The yard without output and without anything waiting. -/
def empty : Yard := ⟨#[], []⟩

/-- Sends the top of the stack to the output while `p` holds of it. -/
def popWhile (p : Pending → Bool) (y : Yard) : Yard :=
  ⟨y.output ++ Pending.items (y.stack.takeWhile p), y.stack.dropWhile p⟩

def push (entry : Pending) (y : Yard) : Yard := ⟨y.output, entry :: y.stack⟩

def value (x : Float) (y : Yard) : Yard := ⟨y.output.push (.value x), y.stack⟩

/-- Takes an operator, after all that bind at least as tightly up to the nearest parenthesis. -/
def operator (op : Operator) (y : Yard) : Yard :=
  (y.popWhile fun entry => op.precedence ≤ entry.rank).push (.operator op)

def opening (y : Yard) : Yard := y.push .paren

/-- Takes a closing parenthesis, together with the nearest opening one. -/
def closing (y : Yard) : Yard :=
  let popped := y.popWhile (· ≠ .paren)
  ⟨popped.output, popped.stack.tail⟩

def take (y : Yard) : Symbol → Yard
  | .value x => y.value x
  | .operator op => y.operator op
  | .opening => y.opening
  | .closing => y.closing

/-- The output with everything that still waits, its top first. -/
def program (y : Yard) : List Item := y.output.toList ++ Pending.items y.stack

end Yard

/-- The postfix program of a list of infix symbols. -/
def ofSymbols (symbols : List Symbol) : List Item := (symbols.foldl Yard.take Yard.empty).program

end InfixCalculator.Postfix
