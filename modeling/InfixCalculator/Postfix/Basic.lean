import InfixCalculator.Numeral.Value
import InfixCalculator.Operator

/-!
# Postfix programs

A postfix program is a list of items, each a value or an operator. `text` writes a program on one
line, its items separated by single spaces.
-/

namespace InfixCalculator.Postfix

inductive Item where
  | value (x : Float)
  | operator (op : Operator)
deriving DecidableEq

def Item.text : Item → String
  | value x => Numeral.write x
  | operator op => op.symbol

def text (items : List Item) : String := " ".intercalate (items.map Item.text)

end InfixCalculator.Postfix
