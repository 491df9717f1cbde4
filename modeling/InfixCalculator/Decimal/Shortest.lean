import InfixCalculator.Decimal.Basic

/-!
# The shortest decimal of a binary64 value

Of the decimals whose nearest binary64 value is the given one, `shortest` takes one with the
fewest digits, and among those the one closest to the value; of two equally close ones it takes
the greater.

The search runs over the grids of decimals with one, two, … seventeen digits. If any decimal of a
grid rounds to the value, so does one of the value's two neighbours on that grid, because the
decimals that round to it form an interval around it. Two neighbouring values differ by more than
the spacing of the grid of seventeen digits, so the search ends there at the latest.

All arithmetic is exact. The value is scaled by `10 ^ 341`, which leaves every finite nonzero value
a whole part of at least eighteen digits.
-/

namespace InfixCalculator.Decimal.Shortest

/-- The value times `10 ^ 341`, in units of `2^-1074`. -/
def scaled (pattern : Nat) : Nat := Binary64.units pattern * Nat.pow 10 341

/-- The whole part of the value times `10 ^ 341`. -/
def whole (pattern : Nat) : Nat := scaled pattern >>> 1074

/-- The greatest decimal not above the value whose last `cut` scaled digits are dropped. -/
def below (pattern cut : Nat) : Decimal := ⟨whole pattern / Nat.pow 10 cut, cut - 341⟩

/-- The decimal that follows `below` on the same grid. -/
def above (pattern cut : Nat) : Decimal := ⟨whole pattern / Nat.pow 10 cut + 1, cut - 341⟩

/-- Whether the value lies strictly nearer to `below` than to `above`. -/
def nearerBelow (pattern cut : Nat) : Bool :=
  2 * scaled pattern < ((2 * (whole pattern / Nat.pow 10 cut) + 1) * Nat.pow 10 cut) <<< 1074

/-- The better of the value's two neighbours on a grid, if one of them rounds to the value. -/
def onGrid (pattern cut : Nat) : Option Decimal :=
  let low := below pattern cut
  let high := above pattern cut
  if low.nearest = pattern then
    if high.nearest = pattern ∧ ¬ nearerBelow pattern cut then some high else some low
  else if high.nearest = pattern then some high
  else none

end Shortest

/-- The shortest decimal that rounds to the value of a finite nonzero pattern, without trailing
zeros. The default is the value's whole scaled part, for a search that finds nothing. -/
def shortest (pattern : Nat) : Decimal :=
  let length := (Nat.toDigits 10 (Shortest.whole pattern)).length
  let found := (List.range' 1 17).findSome? fun count => Shortest.onGrid pattern (length - count)
  (found.getD ⟨Shortest.whole pattern, -341⟩).stripped

end InfixCalculator.Decimal
