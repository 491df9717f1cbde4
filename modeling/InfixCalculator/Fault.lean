/-!
# Faults

The causes for which an expression has no value. Their wording stands in one place, `message`.
-/

namespace InfixCalculator

/-- Why an expression has no value. -/
inductive Fault where
  /-- A name that no assignment has bound. -/
  | unbound (name : String)
  /-- A token whose text means nothing for its kind. -/
  | meaningless (text : String)
  /-- An operator without two operands, or no operand at all. -/
  | missingOperand
deriving DecidableEq, Repr

/-- The text that tells a user of the fault. -/
def Fault.message : Fault → String
  | unbound name => "unknown variable, '" ++ name ++ "'"
  | meaningless text => "unknown token, '" ++ text ++ "'"
  | missingOperand => "not enough operands on the stack"

end InfixCalculator
