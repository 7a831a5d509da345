import ChartSchema.Json.Basic
import ChartSchema.Number.Decimal
import ChartSchema.Text.Blank
import ChartSchema.Text.Pieces

/-!
# Data paths

A data path names a place inside a JSON payload: `$.charts[0].label`. The root `$` may be left
out, each segment between dots is a key, an index in brackets, or a key followed by one index.
Read as a list of steps, a path can be looked up and written; a write creates the objects and
arrays that it needs on the way, and pads arrays with `null`.
-/

namespace ChartSchema

/-- One step into a payload. -/
inductive PathStep where
  | key (name : String)
  | index (position : Nat)
  deriving DecidableEq

/-- The steps from the root of a payload to a place in it. -/
abbrev DataPath := List PathStep

/-! ### Text of a path -/

/-- Whether a text is written as a data path of a schema, `$.` and more. -/
def isDataPath (text : String) : Bool :=
  match text.toList with
  | '$' :: '.' :: _ => true
  | _ => false

namespace DataPath

/-- Reads an index: digits, with an optional plus sign, below `2 ^ 64`. -/
def index? (text : List Char) : Option Nat :=
  let digits := match text with
    | '+' :: rest => rest
    | rest => rest
  if digits ≠ [] ∧ digits.all Char.isDigit ∧ digitsValue digits < UInt64.size then
    some (digitsValue digits)
  else none

/-- The steps of one segment: a key, or what stands before the first bracket as a key, unless it
is empty, and the index in the brackets. -/
def segment? (segment : List Char) : Option (List PathStep) :=
  match segment.dropWhile (· ≠ '[') with
  | [] => if segment = [] then none else some [.key (String.ofList segment)]
  | _ :: inner =>
    if inner.getLast? = some ']' then do
      let position ← index? (trimBlanks inner.dropLast)
      let name := segment.takeWhile (· ≠ '[')
      some ((if name = [] then [] else [.key (String.ofList name)]) ++ [.index position])
    else none

/-- Reads the text of a path; `none` if a segment is malformed. -/
def ofText? (text : String) : Option DataPath :=
  let body := match trimBlanks text.toList with
    | '$' :: '.' :: rest => rest
    | '$' :: rest => rest
    | rest => rest
  if body = [] then some []
  else ((splitAt '.' body).mapM segment?).map List.flatten

/-! ### Looking up -/

/-- The value one step into a payload. -/
def step? (payload : Json) : PathStep → Option Json
  | .key name => payload.get? name
  | .index position => payload.items?.bind (·[position]?)

/-- The value at a path. -/
def get? (payload : Json) : DataPath → Option Json
  | [] => some payload
  | step :: rest => (step? payload step).bind (get? · rest)

/-! ### Writing -/

/-- Changes the item at a position, after padding the list up to it with `null`. -/
def changeItem (f : Json → Json) : Nat → List Json → List Json
  | 0, [] => [f .null]
  | 0, item :: rest => f item :: rest
  | position + 1, [] => .null :: changeItem f position []
  | position + 1, item :: rest => item :: changeItem f position rest

/-- The payload with a value written at a path. What stands in the way and is not an object for a
key, or not an array for an index, is replaced by an empty one. -/
def set (value : Json) : DataPath → Json → Json
  | [], _ => value
  | .key name :: rest, payload =>
    let fields := payload.fields?.getD []
    .object (Fields.insert name (set value rest ((Fields.get? name fields).getD .null)) fields)
  | .index position :: rest, payload =>
    .array (changeItem (set value rest) position (payload.items?.getD []))

/-- The largest index that a write pads up to. -/
def maxSetIndex : Nat := 10000

/-- Whether a path can be written: it has a step, and no index above the largest. -/
def isWritable (path : DataPath) : Bool :=
  !path.isEmpty && path.all fun
    | .key _ => true
    | .index position => decide (position ≤ maxSetIndex)

end DataPath

/-- The value of a payload at the path written in a text. -/
def Json.getPath? (payload : Json) (text : String) : Option Json :=
  (DataPath.ofText? text).bind (DataPath.get? payload)

/-- The payload with a value written at the path in a text; `none` if the text is no path or one
that cannot be written. -/
def Json.setPath? (payload : Json) (text : String) (value : Json) : Option Json :=
  match DataPath.ofText? text with
  | some path => if DataPath.isWritable path then some (DataPath.set value path payload) else none
  | none => none

/-! ### Field maps -/

/-- A table from target paths to source paths. -/
abbrev FieldMap := Fields String

/-- Copies the source of an entry to its target, unless it has none or the target cannot be
written. -/
def copyField (payload : Json) (out : Json) (target source : String) : Json :=
  match payload.getPath? source with
  | some value => (out.setPath? target value).getD out
  | none => out

/-- The payload reshaped by a field map: the value of each source at its target, in a fresh
object. -/
def FieldMap.apply (table : FieldMap) (payload : Json) : Json :=
  table.foldl (fun out (target, source) => copyField payload out target source) (.object [])

end ChartSchema
