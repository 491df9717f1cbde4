import InfixCalculator.Fault
import InfixCalculator.Numeral.Value
import InfixCalculator.Token.Basic
import InfixCalculator.Variables

/-!
# Infix symbols

What a token means: a value, an operator or a parenthesis. A name means the value it is bound to. A
number that is no numeral, a name that is not bound, and an operator or a punctuation with any other
text mean nothing, which is the fault of the token alone.
-/

namespace InfixCalculator.Postfix

/-- An infix symbol, its variable replaced by a value. -/
inductive Symbol where
  | value (x : Float)
  | operator (op : Operator)
  | opening
  | closing
deriving DecidableEq

/-- The symbol a token means. -/
def Symbol.ofToken (table : Variables) (token : Token) : Except Fault Symbol :=
  match token.kind with
  | .number =>
    match Numeral.read? token.text with
    | some x => .ok (.value x)
    | none => .error (.meaningless token.text)
  | .identifier =>
    match table[token.text]? with
    | some x => .ok (.value x)
    | none => .error (.unbound token.text)
  | .operator =>
    match Operator.ofSymbol? token.text with
    | some op => .ok (.operator op)
    | none => .error (.meaningless token.text)
  | .punctuation =>
    if token.text = "(" then .ok .opening
    else if token.text = ")" then .ok .closing
    else .error (.meaningless token.text)

end InfixCalculator.Postfix
