import InfixCalculator.Fault
import InfixCalculator.Postfix.Basic

/-!
# Running postfix programs

A program runs on a stack of values, held with its top first. A value is pushed; an operator takes
its right operand from the top and its left operand from below it, and pushes what it computes. The
value of a program is the top of the stack at its end: operands below it are ignored.

* `run`: a program on a stack.
* `run_append`: a program in two parts runs part by part.
* `result`: the value of a program.
-/

namespace InfixCalculator.Postfix

/-- What one item does to a stack. -/
def step : Item → List Float → Except Fault (List Float)
  | .value x, stack => .ok (x :: stack)
  | .operator op, right :: left :: stack => .ok (op.apply left right :: stack)
  | .operator _, _ => .error .missingOperand

/-- Runs a program on a stack. -/
def run : List Item → List Float → Except Fault (List Float)
  | [], stack => .ok stack
  | item :: items, stack =>
    match step item stack with
    | .ok stack => run items stack
    | .error fault => .error fault

/-- The value of a program. -/
def result (items : List Item) : Except Fault Float :=
  match run items [] with
  | .ok (x :: _) => .ok x
  | .ok [] => .error .missingOperand
  | .error fault => .error fault

/-! ## Laws -/

@[simp] theorem run_nil (stack : List Float) : run [] stack = .ok stack := rfl

@[simp] theorem run_value (x : Float) (items : List Item) (stack : List Float) :
    run (.value x :: items) stack = run items (x :: stack) := rfl

@[simp] theorem run_operator (op : Operator) (items : List Item) (left right : Float)
    (stack : List Float) :
    run (.operator op :: items) (right :: left :: stack) = run items (op.apply left right :: stack) :=
  rfl

theorem run_append (items items' : List Item) (stack : List Float) :
    run (items ++ items') stack = (run items stack).bind (run items') := by
  induction items generalizing stack with
  | nil => rfl
  | cons item items ih =>
    simp only [List.cons_append, run]
    cases step item stack with
    | ok stack => exact ih stack
    | error fault => rfl

/-- A program knows no other fault than a missing operand. -/
theorem run_eq_error {items : List Item} {stack : List Float} {fault : Fault}
    (h : run items stack = .error fault) : fault = .missingOperand := by
  induction items generalizing stack with
  | nil => cases h
  | cons item items ih =>
    simp only [run] at h
    split at h
    · exact ih h
    · next fault' hstep =>
      cases h
      revert hstep
      fun_cases step item stack
      · nofun
      · nofun
      · intro h
        cases h
        rfl

end InfixCalculator.Postfix
