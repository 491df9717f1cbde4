import InfixCalculator.Decimal.Basic

/-!
# Written forms of decimals

A decimal is written positionally, with at least one digit on each side of the point, or with an
exponent, `1.5e-5` or `1e16`. A `Layout` says for which exponents of the leading digit the
positional form is used.
-/

namespace InfixCalculator.Numeral

/-- Positional form is used from `positionalFrom` up to, but not including, `positionalEnd`. -/
structure Layout where
  positionalFrom : Int
  positionalEnd : Int
deriving DecidableEq, Repr

/-- Text of an integer: a minus sign where one is needed, and never a plus sign. -/
def intChars (i : Int) : List Char :=
  if i < 0 then '-' :: Nat.toDigits 10 i.natAbs else Nat.toDigits 10 i.natAbs

/-- Digits around a point: zeros fill the gap between the digits and the point on either side. -/
def positional (d : Decimal) : List Char :=
  let ds := d.digitChars
  if 0 ≤ d.exponent then
    ds ++ List.replicate d.exponent.toNat '0' ++ ['.', '0']
  else
    let places := d.exponent.natAbs
    if places < ds.length then
      ds.take (ds.length - places) ++ '.' :: ds.drop (ds.length - places)
    else
      '0' :: '.' :: List.replicate (places - ds.length) '0' ++ ds

/-- One digit before the point, the others after it, and the exponent of the leading digit. A lone
digit has no point. -/
def scientific (d : Decimal) : List Char :=
  let significand :=
    match d.digitChars with
    | first :: second :: rest => first :: '.' :: second :: rest
    | ds => ds
  significand ++ 'e' :: intChars d.leadingExponent

/-- The written form of a decimal. -/
def Layout.write (layout : Layout) (d : Decimal) : List Char :=
  if layout.positionalFrom ≤ d.leadingExponent ∧ d.leadingExponent < layout.positionalEnd then
    positional d
  else
    scientific d

end InfixCalculator.Numeral
