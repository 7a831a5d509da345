import ChartSchema.Json.Basic
import ChartSchema.Number.Shortest

/-!
# JSON text

The text of a JSON value is compact, with the fields of an object in order. In strings, quotes,
backslashes and control characters are escaped and everything else stands for itself. Real
numbers always show a point or an exponent, so that the kind of a number can be read off.
-/

namespace ChartSchema

namespace Json

/-- Positional from `0.00001` up to `10 ^ 16`, with a point in every number; of two equally short
and near numerals the even one. -/
def numberLayout : NumberLayout :=
  ⟨fun e => decide (-5 ≤ e ∧ e < 16), true, .toEven⟩

/-- A lower-case hexadecimal digit. -/
def hexDigit (n : Nat) : Char :=
  (Nat.toDigits 16 n).getLastD '0'

/-- A character as it stands inside a string. -/
def escape (c : Char) : List Char :=
  match c with
  | '"' => ['\\', '"']
  | '\\' => ['\\', '\\']
  | '\n' => ['\\', 'n']
  | '\r' => ['\\', 'r']
  | '\t' => ['\\', 't']
  | '\x08' => ['\\', 'b']
  | '\x0c' => ['\\', 'f']
  | c =>
    if c.toNat < 0x20 then ['\\', 'u', '0', '0', hexDigit (c.toNat / 16), hexDigit (c.toNat % 16)]
    else [c]

/-- A string in quotes. -/
def quote (text : String) : String :=
  String.ofList ('"' :: (text.toList.flatMap escape ++ ['"']))

/-- The text of a number. -/
def numberText : JsonNumber → String
  | .integer value _ => String.ofList
      ((if value < 0 then ['-'] else []) ++ Nat.toDigits 10 value.natAbs)
  | .real value _ => String.ofList (numberLayout.write value)

mutual

/-- The text of a value. -/
def toText : Json → String
  | .null => "null"
  | .bool value => if value then "true" else "false"
  | .number value => numberText value
  | .string text => quote text
  | .array items => "[" ++ itemsText items ++ "]"
  | .object fields => "\x7b" ++ fieldsText fields ++ "\x7d"

/-- The items of an array, separated by commas. -/
def itemsText : List Json → String
  | [] => ""
  | [item] => toText item
  | item :: rest => toText item ++ "," ++ itemsText rest

/-- The fields of an object, separated by commas. -/
def fieldsText : List (String × Json) → String
  | [] => ""
  | [(key, value)] => quote key ++ ":" ++ toText value
  | (key, value) :: rest => quote key ++ ":" ++ toText value ++ "," ++ fieldsText rest

end

end Json

end ChartSchema
