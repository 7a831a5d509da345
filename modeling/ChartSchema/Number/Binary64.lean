/-!
# Binary64 numbers

The numbers of a chart configuration are IEEE 754 binary64 values. A finite value is kept as a
sign and a whole number of **units**, where one unit is `2 ^ (-1074)`, the smallest positive
value of the format. Every finite value is a whole number of units, so that addition, remainder
and comparison are arithmetic on integers, and each operation rounds exactly once, to the
nearest representable count of units, a half going to the even neighbour.

Two notions of equality are kept apart: `=` tells `0.0` from `-0.0` and identifies `nan` with
itself, whereas `Binary64.equals` is the comparison of the format, for which the two zeros agree
and `nan` differs from everything.
-/

namespace ChartSchema

/-! ### Rounding -/

/-- The number of units in `1`. -/
def unitsPerOne : Nat := Nat.pow 2 1074

/-- A count of units is **representable** when its 53 leading binary digits carry all of it and
it lies below the overflow bound `2 ^ 1024`. -/
def Representable (units : Nat) : Prop :=
  units % Nat.pow 2 (units.log2 - 52) = 0 ∧ units < Nat.pow 2 2098

instance (units : Nat) : Decidable (Representable units) :=
  inferInstanceAs (Decidable (_ ∧ _))

/-- The whole number nearest to `num / den`, a half going to the even neighbour. -/
def roundDiv (num den : Nat) : Nat :=
  let quotient := num / den
  let twice := 2 * (num % den)
  if twice < den then quotient
  else if den < twice then quotient + 1
  else if quotient % 2 = 0 then quotient else quotient + 1

/-- The count of units nearest to `num / den` among those with 53 leading binary digits. -/
def roundUnits (num den : Nat) : Nat :=
  let step := Nat.pow 2 ((num / den).log2 - 52)
  roundDiv num (den * step) * step

/-- A binary64 value: not a number, an infinity, or a signed representable count of units. -/
inductive Binary64 where
  | nan
  | infinite (negative : Bool)
  | finite (negative : Bool) (units : Nat) (representable : Representable units)
  deriving DecidableEq

namespace Binary64

/-- The value nearest to `num / den` units; an infinity when that lies beyond the bound. -/
def ofUnits (negative : Bool) (num den : Nat) : Binary64 :=
  let units := roundUnits num den
  if h : Representable units then .finite negative units h else .infinite negative

/-- Zero with the given sign. -/
def zero (negative : Bool) : Binary64 :=
  .finite negative 0 (by decide +kernel)

instance : Inhabited Binary64 := ⟨zero false⟩

/-- The value nearest to the fraction `num / den`. -/
def ofRatio (negative : Bool) (num den : Nat) : Binary64 :=
  ofUnits negative (num * unitsPerOne) den

/-- The value nearest to a natural number. -/
def ofNat (n : Nat) : Binary64 :=
  ofRatio false n 1

/-- The value nearest to an integer. -/
def ofInt (n : Int) : Binary64 :=
  ofRatio (decide (n < 0)) n.natAbs 1

/-! ### Parts of a value -/

/-- The signed count of units of a finite value. -/
def signed (negative : Bool) (units : Nat) : Int :=
  if negative then -(units : Int) else units

def isNan : Binary64 → Bool
  | .nan => true
  | _ => false

/-- Neither `nan` nor an infinity. -/
def isFinite : Binary64 → Bool
  | .finite .. => true
  | _ => false

/-- A finite value without a fractional part. -/
def isIntegral : Binary64 → Bool
  | .finite _ units _ => units % unitsPerOne = 0
  | _ => false

/-- The value with its fractional part dropped, as an integer; zero unless finite. -/
def truncate : Binary64 → Int
  | .finite negative units _ => signed negative (units / unitsPerOne)
  | _ => 0

/-- The integer of a finite integral value below `2 ^ 53` in magnitude, the range in which
consecutive integers are told apart. -/
def exactInteger? (x : Binary64) : Option Int :=
  if x.isIntegral ∧ x.truncate.natAbs < Nat.pow 2 53 then some x.truncate else none

/-- Truncation to an integer between `low` and `high`: values outside, the infinities among
them, go to the nearer bound and `nan` goes to zero. -/
def truncateWithin (low high : Int) : Binary64 → Int
  | .nan => 0
  | .infinite negative => if negative then low else high
  | x => max low (min high x.truncate)

/-! ### Comparison -/

/-- The order of the format: `none` when either side is `nan`, and the two zeros are equal. -/
def compare? : Binary64 → Binary64 → Option Ordering
  | .nan, _ => none
  | _, .nan => none
  | .infinite a, .infinite b => some (if a = b then .eq else if a then .lt else .gt)
  | .infinite a, .finite .. => some (if a then .lt else .gt)
  | .finite .., .infinite b => some (if b then .gt else .lt)
  | .finite a x _, .finite b y _ => some (compare (signed a x) (signed b y))

/-- The equality of the format. -/
def equals (x y : Binary64) : Bool :=
  x.compare? y = some .eq

/-- Strictly less in the order of the format. -/
def less (x y : Binary64) : Bool :=
  x.compare? y = some .lt

/-- The smaller of two values, where a `nan` gives way to the other side. -/
def minimum (x y : Binary64) : Binary64 :=
  if x.isNan then y else if y.isNan then x else if y.less x then y else x

/-- The larger of two values, where a `nan` gives way to the other side. -/
def maximum (x y : Binary64) : Binary64 :=
  if x.isNan then y else if y.isNan then x else if x.less y then y else x

/-! ### Arithmetic -/

def negate : Binary64 → Binary64
  | .nan => .nan
  | .infinite negative => .infinite !negative
  | .finite negative units h => .finite (!negative) units h

def absolute : Binary64 → Binary64
  | .nan => .nan
  | .infinite _ => .infinite false
  | .finite _ units h => .finite false units h

/-- The sum. Equal and opposite values add up to `0.0`; only `-0.0 + -0.0` keeps the sign. -/
def add : Binary64 → Binary64 → Binary64
  | .nan, _ => .nan
  | _, .nan => .nan
  | .infinite a, .infinite b => if a = b then .infinite a else .nan
  | .infinite a, .finite .. => .infinite a
  | .finite .., .infinite b => .infinite b
  | .finite a x _, .finite b y _ =>
    let sum := signed a x + signed b y
    if sum = 0 then zero (a && b) else ofUnits (decide (sum < 0)) sum.natAbs 1

def sub (x y : Binary64) : Binary64 :=
  x.add y.negate

/-- The product. An infinity times a zero is not a number. -/
def mul : Binary64 → Binary64 → Binary64
  | .nan, _ => .nan
  | _, .nan => .nan
  | .infinite a, .infinite b => .infinite (a ^^ b)
  | .infinite a, .finite b y _ => if y = 0 then .nan else .infinite (a ^^ b)
  | .finite a x _, .infinite b => if x = 0 then .nan else .infinite (a ^^ b)
  | .finite a x _, .finite b y _ => ofUnits (a ^^ b) (x * y) unitsPerOne

/-- The quotient. A nonzero value over a zero is an infinity, a zero over a zero is not a
number. -/
def div : Binary64 → Binary64 → Binary64
  | .nan, _ => .nan
  | _, .nan => .nan
  | .infinite _, .infinite _ => .nan
  | .infinite a, .finite b _ _ => .infinite (a ^^ b)
  | .finite a _ _, .infinite b => zero (a ^^ b)
  | .finite a x _, .finite b y _ =>
    if y = 0 then (if x = 0 then .nan else .infinite (a ^^ b))
    else ofUnits (a ^^ b) (x * unitsPerOne) y

/-- The remainder of division towards zero, exact, with the sign of the dividend. -/
def rem : Binary64 → Binary64 → Binary64
  | .nan, _ => .nan
  | _, .nan => .nan
  | .infinite _, _ => .nan
  | x@(.finite ..), .infinite _ => x
  | .finite a x _, .finite _ y _ => if y = 0 then .nan else ofUnits a (x % y) 1

/-- The power with a natural exponent by repeated squaring, from the low binary digit of the
exponent upwards, each multiplication rounded. -/
def power (x : Binary64) (n : Nat) : Binary64 :=
  go x n (ofNat 1)
where
  go (square : Binary64) (n : Nat) (acc : Binary64) : Binary64 :=
    if n = 0 then acc
    else if n = 1 then acc.mul square
    else go (square.mul square) (n / 2) (if n % 2 = 1 then acc.mul square else acc)
  termination_by n

/-- The nearest integral value, a half going away from zero. -/
def roundHalfAway : Binary64 → Binary64
  | .finite negative units _ =>
    ofUnits negative ((2 * units + unitsPerOne) / (2 * unitsPerOne) * unitsPerOne) 1
  | x => x

end Binary64

end ChartSchema
