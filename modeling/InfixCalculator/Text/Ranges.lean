/-!
# Ranges of code points

Classes of characters that no short rule describes are given by tables of inclusive ranges.
-/

namespace InfixCalculator.Text

/-- A table of code points, each range with its first and its last. -/
abbrev Ranges := List (Nat × Nat)

/-- Whether a character lies in one of the ranges. -/
def Ranges.cover (ranges : Ranges) (c : Char) : Bool :=
  ranges.any fun (first, last) => first ≤ c.toNat && c.toNat ≤ last

end InfixCalculator.Text
