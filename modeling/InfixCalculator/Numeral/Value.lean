import InfixCalculator.Decimal.Shortest
import InfixCalculator.Numeral.Grammar
import InfixCalculator.Numeral.Layout

/-!
# Reading and writing values

`write` gives the text of a value: the shortest decimal that reads back to it, laid out by
`layout`, or the name of a value that no decimal denotes. `read?` gives the value of a text that
is a numeral.
-/

namespace InfixCalculator.Numeral

/-- Values from a ten-thousandth up to ten to the sixteenth are written positionally. -/
def layout : Layout := ⟨-4, 16⟩

/-- The text of the value of a pattern, without a sign. -/
def writePattern (pattern : Nat) : List Char :=
  if pattern = 0 then "0.0".toList
  else if pattern < Binary64.infinity then layout.write (Decimal.shortest pattern)
  else if pattern = Binary64.infinity then "inf".toList
  else "NaN".toList

/-- The text of a value. Zeros and infinities keep their sign; a NaN has none. -/
def write (x : Float) : String :=
  let text := writePattern (Binary64.pattern x)
  String.ofList <|
    if Binary64.isNegative x ∧ Binary64.pattern x ≤ Binary64.infinity then '-' :: text else text

/-- The value of a text that is a numeral. -/
def read? (text : String) : Option Float := (parse? text.toList).map value

/-! ## Both ends of positional form, and the least value -/

example : write (Binary64.toFloat false 0x3F1A36E2EB1C432D) = "0.0001" := by decide +kernel

example : write (Binary64.toFloat true 0x4341C37937E08000) = "-1e16" := by decide +kernel

example : write (Binary64.toFloat false 1) = "5e-324" := by decide +kernel

example : read? "5e-324" = some (Binary64.toFloat false 1) := by decide +kernel

end InfixCalculator.Numeral
