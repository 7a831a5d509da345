import ChartSchema.Fields
import ChartSchema.Number.Decimal

/-!
# Reading TOML

Settings are written in TOML. The reader covers tables, dotted and quoted keys, inline tables,
arrays, integers in four bases, floats, booleans and strings on one line. Dates and strings over
several lines have no place in settings and are refused like any other fault.

A table may be written only once. A table that came about because a longer header or a dotted key
goes through it is remembered as such, since the one may still get a header of its own and the
other may not.
-/

namespace ChartSchema

/-- How a table came about. -/
inductive TableOrigin where
  /-- A header of its own. -/
  | header
  /-- A longer header that goes through it. -/
  | longerHeader
  /-- A dotted key that goes through it. -/
  | dottedKey
  /-- Braces; nothing can be added. -/
  | inline
  deriving DecidableEq

inductive Toml where
  | integer (value : Int)
  | float (value : Binary64)
  | boolean (value : Bool)
  | string (text : String)
  | array (items : List Toml)
  | table (origin : TableOrigin) (fields : List (String × Toml))

namespace Toml

/-! ### Tables -/

/-- Puts a value at a dotted key below a table. Only tables that dotted keys made can be gone
through, and nothing can be written twice. -/
def insertKey? (value : Toml) : List String → Fields Toml → Option (Fields Toml)
  | [], _ => none
  | [key], fields =>
    if Fields.contains key fields then none else some (Fields.insert key value fields)
  | key :: rest, fields =>
    match Fields.get? key fields with
    | none =>
      (insertKey? value rest []).map fun inner =>
        Fields.insert key (.table .dottedKey inner) fields
    | some (.table .dottedKey inner) =>
      (insertKey? value rest inner).map fun inner =>
        Fields.insert key (.table .dottedKey inner) fields
    | some _ => none

/-- Opens the table of a header. -/
def openTable? : List String → Fields Toml → Option (Fields Toml)
  | [], _ => none
  | [key], fields =>
    match Fields.get? key fields with
    | none => some (Fields.insert key (.table .header []) fields)
    | some (.table .longerHeader inner) => some (Fields.insert key (.table .header inner) fields)
    | some _ => none
  | key :: rest, fields =>
    match Fields.get? key fields with
    | none =>
      (openTable? rest []).map fun inner => Fields.insert key (.table .longerHeader inner) fields
    | some (.table .inline _) => none
    | some (.table origin inner) =>
      (openTable? rest inner).map fun inner => Fields.insert key (.table origin inner) fields
    | some _ => none

/-- Changes the table at a path of names. -/
def changeTable? (f : Fields Toml → Option (Fields Toml)) :
    List String → Fields Toml → Option (Fields Toml)
  | [], fields => f fields
  | key :: rest, fields =>
    match Fields.get? key fields with
    | some (.table origin inner) =>
      (changeTable? f rest inner).map fun inner => Fields.insert key (.table origin inner) fields
    | _ => none

/-! ### Blanks and comments -/

def skipSpaces (text : List Char) : List Char :=
  text.dropWhile fun c => c = ' ' || c = '\t'

/-- A character that cannot stand in a comment or a string. -/
def isControl (c : Char) : Bool :=
  (decide (c.toNat < 0x20) && c ≠ '\t') || c.toNat = 0x7F

/-- Takes the end of a line: blanks, an optional comment, and a line break or the end of the
text. -/
def endOfLine? (text : List Char) : Option (List Char) :=
  let rest := match skipSpaces text with
    | '#' :: comment => comment.dropWhile fun c => !isControl c
    | other => other
  match rest with
  | [] => some []
  | '\n' :: rest => some rest
  | '\r' :: '\n' :: rest => some rest
  | _ => none

/-- Takes all blank lines and comments; the first argument bounds the lines. -/
def skipLines : Nat → List Char → List Char
  | 0, text => text
  | fuel + 1, text =>
    let rest := skipSpaces text
    match rest with
    | '#' :: _ => ((endOfLine? rest).map (skipLines fuel)).getD rest
    | '\n' :: rest => skipLines fuel rest
    | '\r' :: '\n' :: rest => skipLines fuel rest
    | rest => rest

/-! ### Strings and keys -/

/-- The number written by hexadecimal digits. -/
def hexNumber? (digits : List Char) : Option Nat :=
  digits.foldlM (fun value c =>
    if c.isDigit then some (16 * value + (c.toNat - '0'.toNat))
    else if 'a' ≤ c ∧ c ≤ 'f' then some (16 * value + (c.toNat - 'a'.toNat + 10))
    else if 'A' ≤ c ∧ c ≤ 'F' then some (16 * value + (c.toNat - 'A'.toNat + 10))
    else none) 0

/-- The character with the code point that the digits write. -/
def codePoint? (digits : List Char) : Option Char := do
  let n ← hexNumber? digits
  if n < 0xD800 ∨ (0xDFFF < n ∧ n < 0x110000) then some (Char.ofNat n) else none

def unescape? : Char → Option Char
  | '"' => some '"'
  | '\\' => some '\\'
  | 'b' => some '\x08'
  | 't' => some '\t'
  | 'n' => some '\n'
  | 'f' => some '\x0c'
  | 'r' => some '\r'
  | _ => none

/-- The rest of a string in double quotes and what follows it. -/
def basicString? : List Char → Option (List Char × List Char)
  | [] => none
  | '"' :: rest => some ([], rest)
  | '\\' :: 'u' :: a :: b :: c :: d :: rest => do
    let char ← codePoint? [a, b, c, d]
    let (text, rest) ← basicString? rest
    some (char :: text, rest)
  | '\\' :: 'U' :: a :: b :: c :: d :: e :: f :: g :: h :: rest => do
    let char ← codePoint? [a, b, c, d, e, f, g, h]
    let (text, rest) ← basicString? rest
    some (char :: text, rest)
  | '\\' :: c :: rest => do
    let char ← unescape? c
    let (text, rest) ← basicString? rest
    some (char :: text, rest)
  | c :: rest =>
    if isControl c ∨ c = '\\' then none
    else do
      let (text, rest) ← basicString? rest
      some (c :: text, rest)

/-- The rest of a string in single quotes and what follows it. -/
def literalString? (text : List Char) : Option (List Char × List Char) :=
  let body := text.takeWhile fun c => c ≠ '\'' && !isControl c
  match text.drop body.length with
  | '\'' :: rest => some (body, rest)
  | _ => none

def isBareKeyChar (c : Char) : Bool :=
  c.isAlphanum || c = '_' || c = '-'

/-- One part of a key. -/
def simpleKey? : List Char → Option (String × List Char)
  | '"' :: rest => (basicString? rest).map fun (text, rest) => (String.ofList text, rest)
  | '\'' :: rest => (literalString? rest).map fun (text, rest) => (String.ofList text, rest)
  | text =>
    let name := text.takeWhile isBareKeyChar
    if name = [] then none else some (String.ofList name, text.dropWhile isBareKeyChar)

/-- A key: parts with dots between them and blanks around the dots. -/
def key? : Nat → List Char → Option (List String × List Char)
  | 0, _ => none
  | fuel + 1, text => do
    let (first, rest) ← simpleKey? (skipSpaces text)
    match skipSpaces rest with
    | '.' :: rest =>
      let (others, rest) ← key? fuel rest
      some (first :: others, rest)
    | rest => some ([first], rest)

/-! ### Numbers -/

/-- Digits of a base with single underscores between them, without the underscores. -/
def digitGroups? (isDigit : Char → Bool) : List Char → Option (List Char)
  | [] => none
  | [c] => if isDigit c then some [c] else none
  | c :: '_' :: rest => if isDigit c then (digitGroups? isDigit rest).map (c :: ·) else none
  | c :: rest => if isDigit c then (digitGroups? isDigit rest).map (c :: ·) else none

/-- The number written by digits in a base. -/
def inBase (base : Nat) (digits : List Char) : Nat :=
  digits.foldl (fun value c => base * value + (hexNumber? [c]).getD 0) 0

/-- An integer that fits 64 bits with a sign. -/
def integerOf? (value : Int) : Option Toml :=
  if -0x8000000000000000 ≤ value ∧ value < 0x8000000000000000 then some (.integer value) else none

/-- Digits without a superfluous leading zero. -/
def plainDigits? (text : List Char) : Option (List Char) := do
  let digits ← digitGroups? Char.isDigit text
  if digits.head? = some '0' ∧ 1 < digits.length then none else some digits

/-- A whole text as an integer. -/
def integer? : List Char → Option Toml
  | '0' :: 'x' :: rest => do
    let digits ← digitGroups? (fun c => (hexNumber? [c]).isSome) rest
    integerOf? (inBase 16 digits)
  | '0' :: 'o' :: rest => do
    let digits ← digitGroups? (fun c => decide ('0' ≤ c ∧ c ≤ '7')) rest
    integerOf? (inBase 8 digits)
  | '0' :: 'b' :: rest => do
    let digits ← digitGroups? (fun c => c = '0' || c = '1') rest
    integerOf? (inBase 2 digits)
  | text => do
    let (negative, rest) := splitSign text
    let digits ← plainDigits? rest
    integerOf? (if negative then -(digitsValue digits : Int) else digitsValue digits)

/-- The value of a number with a fraction or an exponent; one that overflows upwards is
refused. -/
def floatOf? (negative : Bool) (whole fraction : List Char) (exponent : Int) : Option Toml :=
  let value := Binary64.ofDecimal negative (.ofDigits whole fraction exponent)
  if value = .infinite false then none else some (.float value)

/-- The exponent of a number after its mark. -/
def exponentPart? (text : List Char) : Option Int := do
  let (negative, rest) := splitSign text
  let digits ← digitGroups? Char.isDigit rest
  some (if negative then -(digitsValue digits : Int) else digitsValue digits)

/-- A whole text as a number with a fraction or an exponent, or as one of the names `inf` and
`nan`. -/
def float? (text : List Char) : Option Toml := do
  let (negative, rest) := splitSign text
  if rest = "inf".toList then some (.float (.infinite negative))
  else if rest = "nan".toList then some (.float .nan)
  else
    let isMark (c : Char) : Bool := c = 'e' || c = 'E'
    let mantissa := rest.takeWhile fun c => !isMark c
    let whole ← plainDigits? (mantissa.takeWhile (· ≠ '.'))
    let fraction ← match mantissa.dropWhile (· ≠ '.') with
      | [] => some []
      | _ :: digits => digitGroups? Char.isDigit digits
    let exponent ← match rest.dropWhile fun c => !isMark c with
      | [] => some 0
      | _ :: digits => exponentPart? digits
    floatOf? negative whole fraction exponent

/-- A whole word as a boolean or a number. -/
def word? (word : List Char) : Option Toml :=
  if word = "true".toList then some (.boolean true)
  else if word = "false".toList then some (.boolean false)
  else (integer? word).or (float? word)

/-- A character that can stand in a boolean or a number. -/
def isWordChar (c : Char) : Bool :=
  c.isAlphanum || c = '_' || c = '+' || c = '-' || c = '.'

/-! ### Values -/

mutual

/-- Reads a value; the first argument bounds the steps. -/
def value? : Nat → List Char → Option (Toml × List Char)
  | 0, _ => none
  | fuel + 1, text =>
    match text with
    | '"' :: rest =>
      (basicString? rest).map fun (text, rest) => (.string (String.ofList text), rest)
    | '\'' :: rest =>
      (literalString? rest).map fun (text, rest) => (.string (String.ofList text), rest)
    | '[' :: rest => (items? fuel rest).map fun (items, rest) => (.array items, rest)
    | '\x7b' :: rest =>
      match skipSpaces rest with
      | '\x7d' :: rest => some (.table .inline [], rest)
      | rest => (entries? fuel [] rest).map fun (fields, rest) => (.table .inline fields, rest)
    | text => (word? (text.takeWhile isWordChar)).map (·, text.dropWhile isWordChar)

/-- Reads the items of an array up to its closing bracket. Line breaks may stand between them,
and a comma behind the last. -/
def items? : Nat → List Char → Option (List Toml × List Char)
  | 0, _ => none
  | fuel + 1, text =>
    match skipLines text.length text with
    | ']' :: rest => some ([], rest)
    | text => do
      let (item, rest) ← value? fuel text
      match skipLines rest.length rest with
      | ']' :: rest => some ([item], rest)
      | ',' :: rest =>
        let (items, rest) ← items? fuel rest
        some (item :: items, rest)
      | _ => none

/-- Reads the entries of an inline table up to its closing brace. -/
def entries? : Nat → Fields Toml → List Char → Option (Fields Toml × List Char)
  | 0, _, _ => none
  | fuel + 1, fields, text => do
    let (path, rest) ← key? text.length text
    match skipSpaces rest with
    | '=' :: rest =>
      let (value, rest) ← value? fuel (skipSpaces rest)
      let fields ← insertKey? value path fields
      match skipSpaces rest with
      | '\x7d' :: rest => some (fields, rest)
      | ',' :: rest => entries? fuel fields rest
      | _ => none
    | _ => none

end

/-! ### Documents -/

/-- Reads lines into the fields of a document; entries go to the table of the last header. -/
def lines? : Nat → List String → Fields Toml → List Char → Option (Fields Toml)
  | 0, _, _, _ => none
  | fuel + 1, header, fields, text =>
    match skipSpaces text with
    | [] => some fields
    | '[' :: rest => do
      let (path, rest) ← key? rest.length rest
      match skipSpaces rest with
      | ']' :: rest =>
        let rest ← endOfLine? rest
        let fields ← openTable? path fields
        lines? fuel path fields rest
      | _ => none
    | text =>
      match endOfLine? text with
      -- nothing on the line but a comment
      | some rest => lines? fuel header fields rest
      | none => do
        let (path, rest) ← key? text.length text
        match skipSpaces rest with
        | '=' :: rest =>
          let (value, rest) ← value? (2 * rest.length + 2) (skipSpaces rest)
          let rest ← endOfLine? rest
          let fields ← changeTable? (insertKey? value path) header fields
          lines? fuel header fields rest
        | _ => none

/-- Reads a whole document. Every line has a character, so that there are no more lines than
characters. -/
def ofText? (source : String) : Option (Fields Toml) :=
  let text := match source.toList with
    | '\uFEFF' :: rest => rest
    | rest => rest
  lines? (text.length + 1) [] [] text

end Toml

end ChartSchema
