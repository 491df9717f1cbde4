/-!
# Binary64 patterns of nonnegative values

A nonnegative binary64 value is held as its bit pattern, a natural number below `signBit`. Patterns
are ordered as the values are, and neighbouring patterns are neighbouring values, so rounding is
arithmetic on natural numbers.

* `units`: the exact value of a finite pattern, counted in units of `2^-1074`.
* `ofRatio`: the pattern nearest to a quotient, a tie going to the even pattern; quotients from
  halfway beyond the greatest finite value on give `infinity`.
* `isNegative`, `pattern`, `toFloat`: the sign and the pattern of a `Float`, and the way back.
-/

namespace InfixCalculator.Binary64

/-- The pattern of positive infinity; every smaller pattern is finite, every greater one is a NaN. -/
def infinity : Nat := 0x7FF0000000000000

/-- The pattern of the one NaN that a `Float` can be: the first bit of its fraction is set. -/
def quietNaN : Nat := 0x7FF8000000000000

/-- The leading bit of a significand, which a pattern leaves out: it stands above the 52 bits of the
fraction. -/
def leadingBit : Nat := 0x10000000000000

/-- The exact value of a finite pattern in units of `2^-1074`. The low 52 bits are the fraction;
above the subnormal patterns it has an implicit leading bit and is shifted by the exponent field
less one. -/
def units (pattern : Nat) : Nat :=
  if pattern < leadingBit then pattern
  else (leadingBit + pattern % leadingBit) <<< (pattern / leadingBit - 1)

/-- The natural number nearest to `num / den`, a tie going to the even one. -/
def roundDiv (num den : Nat) : Nat :=
  let rest := num % den
  if 2 * rest < den then num / den
  else if den < 2 * rest then num / den + 1
  else num / den + num / den % 2

/-- The number of low bits that a significand of 53 bits cannot hold. -/
def excessBits (n : Nat) : Nat := n.log2 - 52

/-- The pattern nearest to `num / den`, a tie going to the even pattern. A significand rounded up
to the next power of two carries into the exponent field, where it means the same value. -/
def ofRatio (num den : Nat) : Nat :=
  let scaled := num <<< 1074
  let shift := excessBits (scaled / den)
  min (shift * leadingBit + roundDiv scaled (den <<< shift)) infinity

/-! ## Signed values -/

/-- The bit of a minus sign, above all patterns. -/
def signBit : Nat := 0x8000000000000000

def isNegative (x : Float) : Bool := signBit ≤ x.toBits.toNat

/-- The pattern of the absolute value. -/
def pattern (x : Float) : Nat := x.toBits.toNat % signBit

/-- The value with the given sign and pattern. -/
def toFloat (negative : Bool) (pattern : Nat) : Float :=
  Float.ofBits (UInt64.ofNat (if negative then signBit + pattern else pattern))

end InfixCalculator.Binary64
