import ChartSchema.Json.Basic
import ChartSchema.Number.Decimal

/-!
# Reading JSON

The reader accepts one JSON value with blanks around it and nothing else: no comments, no
trailing commas, no bare control characters in strings, no surrogate escapes without a partner,
and no more than 127 arrays and objects inside one another. Of two fields with one name the later
counts.

A number without a point or exponent that fits 64 bits is an integer. Every other number is
scaled: its leading digits, as many as fit 64 bits, are rounded to a binary64 value, which is then
multiplied or divided by a power of ten, each step rounding once. A number that overflows is
refused.
-/

namespace ChartSchema

namespace Json

/-! ### Blanks -/

/-- The blanks between the parts of a JSON text. -/
def isBlank (c : Char) : Bool :=
  c = ' ' || c = '\t' || c = '\n' || c = '\r'

def skipBlanks (text : List Char) : List Char :=
  text.dropWhile isBlank

/-! ### Strings -/

/-- The value of a hexadecimal digit of either case. -/
def hexValue? (c : Char) : Option Nat :=
  if c.isDigit then some (c.toNat - '0'.toNat)
  else if 'a' ≤ c ∧ c ≤ 'f' then some (c.toNat - 'a'.toNat + 10)
  else if 'A' ≤ c ∧ c ≤ 'F' then some (c.toNat - 'A'.toNat + 10)
  else none

/-- A part of a string: a character, or a number written with four hexadecimal digits, which may
be half of a surrogate pair. -/
inductive StringPart where
  | char (c : Char)
  | unit (n : Nat)

/-- The character of a one-letter escape. -/
def unescape? : Char → Option Char
  | '"' => some '"'
  | '\\' => some '\\'
  | '/' => some '/'
  | 'b' => some '\x08'
  | 'f' => some '\x0c'
  | 'n' => some '\n'
  | 'r' => some '\r'
  | 't' => some '\t'
  | _ => none

/-- Reads up to the closing quote: the parts of the string and what follows it. -/
def stringParts? : List Char → Option (List StringPart × List Char)
  | [] => none
  | '"' :: rest => some ([], rest)
  | '\\' :: 'u' :: a :: b :: c :: d :: rest => do
    let a ← hexValue? a
    let b ← hexValue? b
    let c ← hexValue? c
    let d ← hexValue? d
    let (parts, rest) ← stringParts? rest
    some (.unit (((a * 16 + b) * 16 + c) * 16 + d) :: parts, rest)
  | '\\' :: e :: rest => do
    let c ← unescape? e
    let (parts, rest) ← stringParts? rest
    some (.char c :: parts, rest)
  | c :: rest =>
    if c.toNat < 0x20 ∨ c = '\\' then none
    else do
      let (parts, rest) ← stringParts? rest
      some (.char c :: parts, rest)

/-- Joins surrogate pairs; a lone half is refused. -/
def joinParts? : List StringPart → Option (List Char)
  | [] => some []
  | .char c :: rest => (joinParts? rest).map (c :: ·)
  | .unit high :: .unit low :: rest =>
    if 0xD800 ≤ high ∧ high < 0xDC00 then
      if 0xDC00 ≤ low ∧ low < 0xE000 then
        (joinParts? rest).map
          (Char.ofNat (0x10000 + (high - 0xD800) * 0x400 + (low - 0xDC00)) :: ·)
      else none
    else if 0xDC00 ≤ high ∧ high < 0xE000 then none
    else (joinParts? (.unit low :: rest)).map (Char.ofNat high :: ·)
  | .unit n :: rest =>
    if 0xD800 ≤ n ∧ n < 0xE000 then none else (joinParts? rest).map (Char.ofNat n :: ·)

/-- Reads the string after its opening quote. -/
def readString? (text : List Char) : Option (String × List Char) := do
  let (parts, rest) ← stringParts? text
  let chars ← joinParts? parts
  some (String.ofList chars, rest)

/-! ### Numbers -/

/-- Appends digits to a number as long as it fits 64 bits; the number and how many digits were
taken. -/
def appendDigits (significand : Nat) : List Char → Nat × Nat
  | [] => (significand, 0)
  | c :: rest =>
    let longer := significand * 10 + digitValue c
    if longer < UInt64.size then
      let (result, taken) := appendDigits longer rest
      (result, taken + 1)
    else (significand, 0)

/-- Ten to a power, rounded. -/
def powerOfTen (n : Nat) : Binary64 :=
  .ofDecimal false ⟨1, n⟩

/-- The significand times ten to the exponent by one rounded multiplication or division, or two
divisions when the exponent is below what one power can express. Overflow gives `none`. -/
def scale? (significand : Nat) (exponent : Int) : Option Binary64 :=
  let base := Binary64.ofNat significand
  if significand = 0 then some base
  else if 0 ≤ exponent then
    if 308 < exponent then none
    else
      let scaled := base.mul (powerOfTen exponent.toNat)
      if scaled.isFinite then some scaled else none
  else if -308 ≤ exponent then some (base.div (powerOfTen exponent.natAbs))
  else if -616 ≤ exponent then
    some ((base.div (powerOfTen 308)).div (powerOfTen (exponent + 308).natAbs))
  else some (.zero false)

/-- The real number with the given digits before and after the point and the given exponent. -/
def realNumber? (negative : Bool) (whole fraction : List Char) (exponent : Int) :
    Option JsonNumber := do
  let (significand, takenWhole) := appendDigits 0 whole
  let (significand, takenFraction) := appendDigits significand fraction
  let dropped : Int := (whole.length - takenWhole : Nat)
  let value ← scale? significand (exponent + dropped - takenFraction)
  let value := if negative then value.negate else value
  if h : value.isFinite then some (.real value h) else none

/-- The number written by digits alone. -/
def wholeNumber? (negative : Bool) (whole : List Char) : Option JsonNumber :=
  let magnitude := digitsValue whole
  let value : Int := if negative then -magnitude else magnitude
  if negative ∧ magnitude = 0 then realNumber? negative whole [] 0
  else if h : -0x8000000000000000 ≤ value ∧ value < 0x10000000000000000 then some (.integer value h)
  else realNumber? negative whole [] 0

/-- Reads the fraction after the whole digits of a number: `none` if there is a point without
digits. -/
def readFraction? : List Char → Option (List Char × List Char)
  | '.' :: rest =>
    let digits := leadingDigits rest
    if digits = [] then none else some (digits, afterDigits rest)
  | text => some ([], text)

/-- Reads the exponent of a number, if there is one: `none` inside if there is no mark. -/
def readExponent? : List Char → Option (Option Int × List Char)
  | [] => some (none, [])
  | mark :: rest =>
    if mark = 'e' ∨ mark = 'E' then
      let (negative, rest) := splitSign rest
      let digits := leadingDigits rest
      let value : Int := digitsValue digits
      if digits = [] then none
      else some (some (if negative then -value else value), afterDigits rest)
    else some (none, mark :: rest)

/-- Reads a number: an optional minus sign, digits without a superfluous leading zero, and
optionally a fraction and an exponent. -/
def readNumber? (text : List Char) : Option (JsonNumber × List Char) := do
  let (negative, text) := match text with
    | '-' :: rest => (true, rest)
    | rest => (false, rest)
  let whole := leadingDigits text
  if whole = [] ∨ (whole.head? = some '0' ∧ 1 < whole.length) then none
  else
    let (fraction, rest) ← readFraction? (afterDigits text)
    let (exponent, rest) ← readExponent? rest
    let value ←
      if fraction = [] ∧ exponent = none then wholeNumber? negative whole
      else realNumber? negative whole fraction (exponent.getD 0)
    some (value, rest)

/-! ### Values -/

/-- Takes a word off the front of a text. -/
def dropWord? : List Char → List Char → Option (List Char)
  | [], text => some text
  | _, [] => none
  | w :: word, c :: text => if w = c then dropWord? word text else none

mutual

/-- Reads a value. The first argument bounds the steps and the second the nesting; of any two
steps one takes a character, so that twice the length of the text suffices for the first. -/
def readValue? : Nat → Nat → List Char → Option (Json × List Char)
  | 0, _, _ => none
  | fuel + 1, depth, text =>
    match skipBlanks text with
    | [] => none
    | '"' :: rest => (readString? rest).map fun (text, rest) => (.string text, rest)
    | '[' :: rest =>
      if depth = 0 then none
      else match skipBlanks rest with
        | ']' :: rest => some (.array [], rest)
        | rest => (readItems? fuel (depth - 1) rest).map fun (items, rest) => (.array items, rest)
    | '\x7b' :: rest =>
      if depth = 0 then none
      else match skipBlanks rest with
        | '\x7d' :: rest => some (.object [], rest)
        | rest =>
          (readFields? fuel (depth - 1) rest).map fun (pairs, rest) =>
            (.object (Fields.ofList pairs), rest)
    | 'n' :: rest => (dropWord? "ull".toList rest).map (Json.null, ·)
    | 't' :: rest => (dropWord? "rue".toList rest).map (Json.bool true, ·)
    | 'f' :: rest => (dropWord? "alse".toList rest).map (Json.bool false, ·)
    | text => (readNumber? text).map fun (value, rest) => (.number value, rest)

/-- Reads the items of an array up to its closing bracket. -/
def readItems? : Nat → Nat → List Char → Option (List Json × List Char)
  | 0, _, _ => none
  | fuel + 1, depth, text => do
    let (item, rest) ← readValue? fuel depth text
    match skipBlanks rest with
    | ']' :: rest => some ([item], rest)
    | ',' :: rest =>
      let (items, rest) ← readItems? fuel depth rest
      some (item :: items, rest)
    | _ => none

/-- Reads the fields of an object up to its closing brace, in the order of the text. -/
def readFields? : Nat → Nat → List Char → Option (List (String × Json) × List Char)
  | 0, _, _ => none
  | fuel + 1, depth, text => do
    match skipBlanks text with
    | '"' :: rest =>
      let (key, rest) ← readString? rest
      match skipBlanks rest with
      | ':' :: rest =>
        let (value, rest) ← readValue? fuel depth rest
        match skipBlanks rest with
        | '\x7d' :: rest => some ([(key, value)], rest)
        | ',' :: rest =>
          let (pairs, rest) ← readFields? fuel depth rest
          some ((key, value) :: pairs, rest)
        | _ => none
      | _ => none
    | _ => none

end

/-- How many arrays and objects may stand inside one another. -/
def maxDepth : Nat := 127

/-- Reads a whole text as one JSON value. -/
def ofText? (text : String) : Option Json :=
  let chars := text.toList
  match readValue? (2 * chars.length + 2) maxDepth chars with
  | some (value, rest) => if skipBlanks rest = [] then some value else none
  | none => none

end Json

end ChartSchema
