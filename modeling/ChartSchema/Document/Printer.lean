import ChartSchema.Document.Token
import ChartSchema.Value

/-!
# Printing schemas

A schema is printed as a document with one statement for each leaf, in the order of the paths. A
leaf that no statement can write, because of its value or of a name on its path, is printed as a
comment, so that the document still parses.
-/

namespace ChartSchema

namespace Printer

/-- Whether a text is read as a name: letters, digits and underscores, no digit first, and not one
of the booleans. -/
def isIdentifier (text : List Char) : Bool :=
  text.head?.any isNameStart && text.all isNameChar && decide (text ≠ "true".toList) &&
    decide (text ≠ "false".toList)

/-- Whether a text is read as an index: digits in brackets. -/
def isIndex (text : List Char) : Bool :=
  match text with
  | '[' :: inner =>
    inner.getLast? = some ']' && decide (inner.dropLast ≠ []) && inner.dropLast.all Char.isDigit
  | _ => false

/-- Whether a name can stand on the path of a statement: an identifier, with an index or
without. -/
def isPathSegment (text : List Char) : Bool :=
  let index := text.dropWhile (· ≠ '[')
  isIdentifier (text.takeWhile (· ≠ '[')) && (decide (index = []) || isIndex index)

/-- A character inside a quoted string. -/
def escape : Char → List Char
  | '"' => ['\\', '"']
  | '\\' => ['\\', '\\']
  | '\n' => ['\\', 'n']
  | '\t' => ['\\', 't']
  | '\r' => ['\\', 'r']
  | c => [c]

/-- A string in double quotes. -/
def quote (text : String) : List Char :=
  '"' :: (text.toList.flatMap escape ++ ['"'])

/-- An integer in decimal digits. -/
def integer (value : Int) : List Char :=
  (if value < 0 then ['-'] else []) ++ Nat.toDigits 10 value.natAbs

/-- A finite number: below `10 ^ 15` an integer is printed as one, so that `-0.0` is `0`; every
other number is printed in the plain layout. -/
def number? (value : Binary64) : Option (List Char) :=
  if value.isFinite then
    if value.isIntegral ∧ value.truncate.natAbs < Nat.pow 10 15 then some (integer value.truncate)
    else some (NumberLayout.plain.write value)
  else none

/-- An argument of a call, if a call can have it. -/
def argument? : Value → Option (List Char)
  | .string text => some (quote text)
  | .number value => number? value
  | _ => none

/-- Pieces with a comma and a blank between them. -/
def commaSeparated : List (List Char) → List Char
  | [] => []
  | [piece] => piece
  | piece :: rest => piece ++ ',' :: ' ' :: commaSeparated rest

/-- The right side of a statement, if the value has one. -/
def value? : Value → Option (List Char)
  | .string text => some (quote text)
  | .number value => number? value
  | .bool value => some (if value then "true".toList else "false".toList)
  | .call name args =>
    match args.mapM argument? with
    | some args =>
      if isIdentifier name.toList then some (name.toList ++ '(' :: (commaSeparated args ++ [')']))
      else none
    | none => none
  | .deferred callback => some (Value.interpolation callback.expression).toList
  | .null => none
  | .array _ => none
  | .object _ => none

/-- A path with dots between the names. -/
def dottedPath (path : List String) : List Char :=
  joinWith '.' (path.map String.toList)

/-- A text on one line. -/
def singleLine (text : String) : List Char :=
  text.toList.map fun c => if c = '\n' ∨ c = '\r' then ' ' else c

/-- The line for a leaf: a statement, or a comment if there is no such statement. -/
def leafLine (path : List String) (value : Value) : List Char :=
  let written := if path.all fun name => isPathSegment name.toList then value? value else none
  match written with
  | some text => dottedPath path ++ ':' :: ' ' :: (text ++ [';', '\n'])
  | none =>
    '#' :: ' ' :: (dottedPath path ++ ':' :: ' ' :: (singleLine value.toJson.toText ++
      " (not expressible)\n".toList))

mutual

/-- The lines for the value at a path. An object without fields is a leaf. -/
def entryLines (path : List String) : Value → List Char
  | .object fields =>
    if fields.isEmpty then leafLine path (.object []) else fieldLines path fields
  | value => leafLine path value

/-- The lines for the fields below a path. -/
def fieldLines (above : List String) : List (String × Value) → List Char
  | [] => []
  | (key, value) :: rest => entryLines (above ++ [key]) value ++ fieldLines above rest

end

end Printer

/-- The schema printed as a document. -/
def Schema.toDocumentText (schema : Schema) : String :=
  String.ofList (Printer.fieldLines [] schema)

end ChartSchema
