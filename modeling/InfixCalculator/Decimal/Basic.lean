import InfixCalculator.Binary64.Basic

/-!
# Decimals

A decimal is a natural number of digits times a power of ten. It denotes the quotient
`numerator / denominator`, of which `nearest` is the rounding to binary64. `stripped` removes
trailing zeros and keeps the value.
-/

namespace InfixCalculator

/-- The number `digits * 10 ^ exponent`. -/
structure Decimal where
  digits : Nat
  exponent : Int
deriving DecidableEq, Repr

namespace Decimal

/-- The numerator of the quotient a decimal denotes. -/
def numerator (d : Decimal) : Nat := d.digits * Nat.pow 10 d.exponent.toNat

/-- The denominator of the quotient a decimal denotes: a power of ten, so never zero. -/
def denominator (d : Decimal) : Nat := Nat.pow 10 (-d.exponent).toNat

/-- The binary64 pattern nearest to the value. -/
def nearest (d : Decimal) : Nat := Binary64.ofRatio d.numerator d.denominator

/-- The same value without trailing zeros among the digits. -/
def stripped (d : Decimal) : Decimal :=
  if d.digits ≠ 0 ∧ d.digits % 10 = 0 then stripped ⟨d.digits / 10, d.exponent + 1⟩ else d
termination_by d.digits
decreasing_by omega

/-- The digits as text, the leading one first. -/
def digitChars (d : Decimal) : List Char := Nat.toDigits 10 d.digits

/-- The exponent of the leading digit. -/
def leadingExponent (d : Decimal) : Int := d.exponent + d.digitChars.length - 1

end Decimal

end InfixCalculator
