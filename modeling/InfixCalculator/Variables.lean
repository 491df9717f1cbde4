import Std.Data.ExtTreeMap

/-!
# The variable table

The values bound to names so far. Tables that bind the same names to the same values are equal, and
`toList` lists the bindings by name, in the order of code points.
-/

namespace InfixCalculator

abbrev Variables := Std.ExtTreeMap String Float

end InfixCalculator
