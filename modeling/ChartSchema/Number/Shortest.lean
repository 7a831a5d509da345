import ChartSchema.Number.Decimal

/-!
# Shortest decimals

A finite binary64 value is written with the fewest digits that read back as the same value.
`shortest` walks the decimal grids from coarse to fine and takes the first grid on which one of
the two neighbours of the value reads back, the nearer one when both do. Reading back is checked
by the very function that reads numerals, and the exact decimal expansion stands behind the
search, so that what is written always reads back.

How digits are laid out is a separate decision, a `NumberLayout`.
-/

namespace ChartSchema

/-- Which of two equally near decimals is taken. -/
inductive Tie where
  /-- The one with the even last digit. -/
  | toEven
  /-- The larger one. -/
  | up
  deriving DecidableEq

/-- Whether a decimal reads as the given count of units. -/
def Decimal.readsAs (d : Decimal) (units : Nat) : Bool :=
  match Binary64.ofDecimal false d with
  | .finite _ read _ => read = units
  | _ => false

/-- The decimal with all digits of a count of units. -/
def Decimal.exact (units : Nat) : Decimal :=
  ⟨units * Nat.pow 5 1074, -1074⟩

/-- The better neighbour on the grid `10 ^ exponent` that reads back, if either does. -/
def Decimal.onGrid? (tie : Tie) (units : Nat) (exponent : Int) : Option Decimal :=
  let num := units * Nat.pow 10 (-exponent).toNat
  let den := unitsPerOne * Nat.pow 10 exponent.toNat
  let low := num / den
  let twice := 2 * (num % den)
  let takeHigh :=
    if twice = den then (match tie with
      | .toEven => low % 2 = 1
      | .up => true)
    else decide (den < twice)
  let nearer : Decimal := ⟨if takeHigh then low + 1 else low, exponent⟩
  let farther : Decimal := ⟨if takeHigh then low else low + 1, exponent⟩
  if nearer.readsAs units then some nearer
  else if farther.readsAs units then some farther
  else none

/-- An exponent whose grid is coarser than the value itself; `30103 / 100000` exceeds the
decimal logarithm of two. -/
def coarsestExponent (units : Nat) : Int :=
  ((units.log2 : Int) - 1073) * 30103 / 100000 + 2

/-- The shortest decimal that reads back, looked for on the twenty-four grids from the coarsest
one downwards. -/
def Decimal.shortest (tie : Tie) (units : Nat) : Decimal :=
  ((List.range 24).findSome? fun (step : Nat) =>
    Decimal.onGrid? tie units (coarsestExponent units - step)).getD (Decimal.exact units)

/-! ### Layout -/

/-- How a decimal is laid out as text. -/
structure NumberLayout where
  /-- Whether a number whose first digit stands for `10 ^ e` is written without an exponent. -/
  positional : Int → Bool
  /-- Whether a whole number without an exponent ends in `.0`. -/
  pointZero : Bool
  /-- Which of two equally near shortest decimals is written. -/
  tie : Tie

namespace NumberLayout

/-- Digits around a point, the first of them standing for `10 ^ e`. -/
def fixed (layout : NumberLayout) (digits : List Char) (e : Int) : List Char :=
  if e < 0 then '0' :: '.' :: (List.replicate (-e - 1).toNat '0' ++ digits)
  else
    let whole := e.toNat + 1
    if digits.length ≤ whole then
      digits ++ List.replicate (whole - digits.length) '0' ++
        (if layout.pointZero then ['.', '0'] else [])
    else digits.take whole ++ '.' :: digits.drop whole

/-- One digit, a point if more digits follow, and a signed exponent. -/
def scientific (digits : List Char) (e : Int) : List Char :=
  digits.take 1 ++ (if digits.length ≤ 1 then [] else '.' :: digits.drop 1) ++
    'e' :: (if e < 0 then '-' else '+') :: Nat.toDigits 10 e.natAbs

/-- The text of a decimal. -/
def decimal (layout : NumberLayout) (d : Decimal) : List Char :=
  let digits := Nat.toDigits 10 d.coefficient
  let e := d.exponent + digits.length - 1
  if layout.positional e then layout.fixed digits e else scientific digits e

/-- The text of a binary64 value. -/
def write (layout : NumberLayout) : Binary64 → List Char
  | .nan => "NaN".toList
  | .infinite negative => if negative then "-inf".toList else "inf".toList
  | .finite negative units _ =>
    let d := if units = 0 then ⟨0, 0⟩ else Decimal.shortest layout.tie units
    (if negative then ['-'] else []) ++ layout.decimal d

/-- Never an exponent and never a superfluous `.0`: `1`, `0.0000001`, `-0`. -/
def plain : NumberLayout :=
  ⟨fun _ => true, false, .up⟩

end NumberLayout

/-- The text of a number in the plain layout. -/
def Binary64.toText (x : Binary64) : String :=
  String.ofList (NumberLayout.plain.write x)

end ChartSchema
