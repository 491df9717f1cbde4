import InfixCalculator.Decimal.Basic

/-!
# The grammar of numerals

A numeral is an optional sign, followed by `inf`, `infinity` or `nan` in any letter case, or by
ASCII digits with an optional point, at least one digit in all, and an optional exponent: `e` or
`E`, an optional sign and at least one digit. Nothing may stand before or after it.

`parse?` reads this grammar, and `value` gives what a numeral denotes, correctly rounded.
-/

namespace InfixCalculator

/-- What a numeral denotes apart from its sign. -/
inductive Numeral.Magnitude where
  | decimal (d : Decimal)
  | infinite
  | notANumber
deriving DecidableEq, Repr

/-- A numeral as read: its sign and what follows it. -/
structure Numeral where
  negative : Bool
  magnitude : Numeral.Magnitude
deriving DecidableEq, Repr

namespace Numeral

/-- Splits an optional sign off; `true` stands for a minus sign. -/
def sign : List Char → Bool × List Char
  | '-' :: cs => (true, cs)
  | '+' :: cs => (false, cs)
  | cs => (false, cs)

/-- The number that exponent digits denote. Once it has reached 65536 further digits are ignored:
every exponent of that size has already overflowed or vanished, unless as many digits stand
against it. -/
def exponentValue (ds : List Char) : Nat :=
  ds.foldl (fun e c => if e < 65536 then 10 * e + (c.toNat - '0'.toNat) else e) 0

/-- The exponent part, to its end; a missing one is zero. -/
def exponent? : List Char → Option Int
  | [] => some 0
  | c :: cs =>
    let (negative, ds) := sign cs
    if (c = 'e' ∨ c = 'E') ∧ ds ≠ [] ∧ ds.all Char.isDigit then
      some (if negative then -(exponentValue ds : Int) else exponentValue ds)
    else
      none

/-- Splits a point and the digits after it off; without a point there are no such digits. -/
def fraction : List Char → List Char × List Char
  | '.' :: cs => (cs.takeWhile Char.isDigit, cs.dropWhile Char.isDigit)
  | cs => ([], cs)

/-- Digits with an optional point and an optional exponent, to the end of the text. -/
def decimal? (cs : List Char) : Option Decimal :=
  let integral := cs.takeWhile Char.isDigit
  let (fractional, rest) := fraction (cs.dropWhile Char.isDigit)
  if integral ++ fractional = [] then none
  else
    (exponent? rest).map fun e =>
      ⟨Nat.ofDigitChars 10 (integral ++ fractional) 0, e - fractional.length⟩

/-- The unsigned part of a numeral. -/
def magnitude? (cs : List Char) : Option Magnitude :=
  let word := cs.map Char.toLower
  if word = "inf".toList ∨ word = "infinity".toList then some .infinite
  else if word = "nan".toList then some .notANumber
  else (decimal? cs).map .decimal

/-- Reads a whole text as a numeral. -/
def parse? (cs : List Char) : Option Numeral :=
  let (negative, rest) := sign cs
  (magnitude? rest).map fun m => ⟨negative, m⟩

/-- The binary64 pattern of a magnitude: a decimal is rounded to the nearest value. -/
def Magnitude.pattern : Magnitude → Nat
  | .decimal d => d.nearest
  | .infinite => Binary64.infinity
  | .notANumber => Binary64.quietNaN

/-- The value a numeral denotes. -/
def value (n : Numeral) : Float := Binary64.toFloat n.negative n.magnitude.pattern

end Numeral

end InfixCalculator
