import ChartSchema.Number.Binary64

/-!
# Decimal numerals

A **decimal** is a coefficient times a power of ten. This module turns decimals into the nearest
binary64 value and reads the numerals that people write: an optional sign, digits with an
optional point, an optional exponent, and the names of the values that are not finite.
-/

namespace ChartSchema

/-- The unsigned number `coefficient * 10 ^ exponent`. -/
structure Decimal where
  coefficient : Nat
  exponent : Int
  deriving DecidableEq

/-- The nearest binary64 value. Coefficients and exponents may be of any size: an exponent above
`400` overflows whatever the coefficient, and below the second bound the value is under half a
unit, so that no huge power is ever computed. -/
def Binary64.ofDecimal (negative : Bool) (d : Decimal) : Binary64 :=
  if d.coefficient = 0 then .zero negative
  else if 400 < d.exponent then .infinite negative
  else if d.exponent + d.coefficient.log2 < -1100 then .zero negative
  else .ofRatio negative (d.coefficient * Nat.pow 10 d.exponent.toNat)
    (Nat.pow 10 (-d.exponent).toNat)

/-! ### Digits -/

/-- The value of a decimal digit. -/
def digitValue (c : Char) : Nat :=
  c.toNat - '0'.toNat

/-- The natural number written by a list of decimal digits, the empty list being zero. -/
def digitsValue (digits : List Char) : Nat :=
  digits.foldl (fun value c => 10 * value + digitValue c) 0

/-- The digits at the front of a text. -/
def leadingDigits (text : List Char) : List Char :=
  text.takeWhile Char.isDigit

/-- What follows the digits at the front of a text. -/
def afterDigits (text : List Char) : List Char :=
  text.dropWhile Char.isDigit

/-- The decimal written by the digits before the point, the digits after it, and an exponent. -/
def Decimal.ofDigits (whole fraction : List Char) (exponent : Int) : Decimal :=
  ⟨digitsValue (whole ++ fraction), exponent - fraction.length⟩

/-! ### Numerals -/

/-- Takes an optional sign off the front of a text. -/
def splitSign : List Char → Bool × List Char
  | '-' :: rest => (true, rest)
  | '+' :: rest => (false, rest)
  | text => (false, text)

/-- Reads a whole text as an optional exponent: nothing, or a mark, an optional sign and at least
one digit. -/
def exponent? : List Char → Option Int
  | [] => some 0
  | mark :: rest =>
    let (negative, digits) := splitSign rest
    if (mark = 'e' ∨ mark = 'E') ∧ digits ≠ [] ∧ digits.all Char.isDigit then
      some (if negative then -(digitsValue digits : Int) else digitsValue digits)
    else none

/-- Reads a whole text as an unsigned decimal. A point may stand first or last, but at least one
digit is needed. -/
def Decimal.ofText? (text : List Char) : Option Decimal :=
  let whole := leadingDigits text
  let rest := afterDigits text
  let (fraction, rest) := match rest with
    | '.' :: rest => (leadingDigits rest, afterDigits rest)
    | rest => ([], rest)
  if whole = [] ∧ fraction = [] then none
  else (exponent? rest).map (Decimal.ofDigits whole fraction)

/-- Reads a whole text as a binary64 value: an optional sign, then a decimal or one of the names
`inf`, `infinity` and `nan` in any case. -/
def Binary64.ofText? (text : List Char) : Option Binary64 :=
  let (negative, rest) := splitSign text
  let name := rest.map Char.toLower
  if name = "inf".toList ∨ name = "infinity".toList then some (.infinite negative)
  else if name = "nan".toList then some .nan
  else (Decimal.ofText? rest).map (.ofDecimal negative)

end ChartSchema
