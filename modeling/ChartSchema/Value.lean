import ChartSchema.Expr.Parser
import ChartSchema.DataPath

/-!
# Property values

A schema is a tree of named properties. Besides the values that JSON has, a property can hold a
call such as `rest("...")`, which names a data source, and a callback, which is an expression kept
until props are known.

A value can be written as JSON and read back: a call becomes an object with exactly the two fields
`$call` and `args`, and a callback becomes the text of its interpolation.
-/

namespace ChartSchema

/-- A compiled expression together with its text. -/
structure Callback where
  expression : String
  tree : Expr
  compiles : Expr.parse expression = .ok tree

/-- Compiles the text of an expression. -/
def Callback.compile (expression : String) : Except ExprError Callback :=
  match h : Expr.parse expression with
  | .ok tree => .ok ⟨expression, tree, h⟩
  | .error e => .error e

/-- The value of a callback for the given props. -/
def Callback.invoke (callback : Callback) (props : Json) : Except EvalError Json :=
  callback.tree.eval props

/-- The value of a property. The fields of an object are in increasing order of their names. -/
inductive Value where
  | null
  | bool (value : Bool)
  | number (value : Binary64)
  | string (text : String)
  | array (items : List Value)
  | object (fields : List (String × Value))
  | call (name : String) (args : List Value)
  | deferred (callback : Callback)

instance : Inhabited Value := ⟨.null⟩

/-- The named properties of a chart. -/
abbrev Schema := Fields Value

/-! ### Reserved names -/

/-- The top-level properties with a meaning of their own. -/
def Schema.typeKey : String := "type"

def Schema.baseKey : String := "extends"

def Schema.sourceKey : String := "source"

def Schema.mapKey : String := "map"

/-- Whether a string is looked up among the variables: a `$` and more, but no data path. -/
def isVariableReference (text : String) : Bool :=
  match text.toList with
  | '$' :: _ :: _ => !isDataPath text
  | _ => false

namespace Value

/-! ### Parts of a value -/

def string? : Value → Option String
  | .string text => some text
  | _ => none

def number? : Value → Option Binary64
  | .number value => some value
  | _ => none

def bool? : Value → Option Bool
  | .bool value => some value
  | _ => none

def items? : Value → Option (List Value)
  | .array items => some items
  | _ => none

def fields? : Value → Option Schema
  | .object fields => some fields
  | _ => none

def isObject : Value → Bool
  | .object _ => true
  | _ => false

/-- The name of the kind of a value, as messages give it. -/
def kindName : Value → String
  | .null => "null"
  | .bool _ => "boolean"
  | .number _ => "number"
  | .string _ => "string"
  | .array _ => "array"
  | .object _ => "object"
  | .call .. => "call"
  | .deferred _ => "callback"

/-! ### Equality -/

mutual

/-- Equality of values. Numbers compare as numbers, so that the two zeros are equal and `nan`
differs from itself, and callbacks by their text. -/
def equals : Value → Value → Bool
  | .null, .null => true
  | .bool a, .bool b => a == b
  | .number a, .number b => a.equals b
  | .string a, .string b => a == b
  | .array a, .array b => itemsEqual a b
  | .object a, .object b => fieldsEqual a b
  | .call f a, .call g b => f == g && itemsEqual a b
  | .deferred a, .deferred b => a.expression == b.expression
  | _, _ => false

/-- Equality of two lists of values, position by position. -/
def itemsEqual : List Value → List Value → Bool
  | [], [] => true
  | a :: as, b :: bs => equals a b && itemsEqual as bs
  | _, _ => false

/-- Equality of two lists of fields, names included. -/
def fieldsEqual : List (String × Value) → List (String × Value) → Bool
  | [], [] => true
  | (k, a) :: as, (l, b) :: bs => k == l && equals a b && fieldsEqual as bs
  | _, _ => false

end

/-! ### JSON -/

/-- The JSON object that stands for a call. -/
def callJson (name : String) (args : List Json) : Json :=
  .object [("$call", .string name), ("args", .array args)]

/-- The text of an interpolation: the expression between its braces. -/
def interpolation (expression : String) : String :=
  "$\x7b" ++ expression ++ "\x7d"

mutual

/-- The value as JSON. Numbers become integers where they are, and `null` where JSON has no
number for them. -/
def toJson : Value → Json
  | .null => .null
  | .bool value => .bool value
  | .number value => .ofMeasure value
  | .string text => .string text
  | .array items => .array (itemsToJson items)
  | .object fields => .object (fieldsToJson fields)
  | .call name args => callJson name (itemsToJson args)
  | .deferred callback => .string (interpolation callback.expression)

/-- Every value of a list as JSON. -/
def itemsToJson : List Value → List Json
  | [] => []
  | item :: rest => toJson item :: itemsToJson rest

/-- Every field as JSON. -/
def fieldsToJson : List (String × Value) → List (String × Json)
  | [] => []
  | (key, value) :: rest => (key, toJson value) :: fieldsToJson rest

end

/-- The object with the given fields, or the call that it stands for. -/
def ofFields : List (String × Value) → Value
  | [(first, .string name), (second, .array args)] =>
    if first = "$call" ∧ second = "args" then .call name args
    else .object [(first, .string name), (second, .array args)]
  | fields => .object fields

mutual

/-- The value written as JSON; callbacks stay strings. -/
def ofJson : Json → Value
  | .null => .null
  | .bool value => .bool value
  | .number value => .number value.toBinary64
  | .string text => .string text
  | .array items => .array (itemsOfJson items)
  | .object fields => ofFields (fieldsOfJson fields)

/-- Every value of a list from JSON. -/
def itemsOfJson : List Json → List Value
  | [] => []
  | item :: rest => ofJson item :: itemsOfJson rest

/-- Every field from JSON. -/
def fieldsOfJson : List (String × Json) → List (String × Value)
  | [] => []
  | (key, value) :: rest => (key, ofJson value) :: fieldsOfJson rest

end

/-! ### Order of the fields -/

mutual

/-- Every object inside the value has its fields in increasing order of their names. -/
def Ordered : Value → Prop
  | .array items => ItemsOrdered items
  | .object fields => Fields.Ordered fields ∧ FieldsOrdered fields
  | .call _ args => ItemsOrdered args
  | _ => True

/-- `Ordered` for every item of a list. -/
def ItemsOrdered : List Value → Prop
  | [] => True
  | item :: rest => item.Ordered ∧ ItemsOrdered rest

/-- `Ordered` for the value of every field. -/
def FieldsOrdered : List (String × Value) → Prop
  | [] => True
  | (_, value) :: rest => value.Ordered ∧ FieldsOrdered rest

end

end Value

namespace Schema

/-- The schema as a JSON object. -/
def toJson (schema : Schema) : Json :=
  .object (Value.fieldsToJson schema)

/-- Equality of schemas; see `Value.equals`. -/
def equals (a b : Schema) : Bool :=
  Value.fieldsEqual a b

/-- The properties below a name: those of its object, or none if it holds no object. -/
def below (schema : Schema) (key : String) : Schema :=
  ((Fields.get? key schema).bind Value.fields?).getD []

/-- Puts a value at a path of names, creating objects on the way; what stands there and is no
object is replaced. An empty path changes nothing. -/
def insertPath (value : Value) : List String → Schema → Schema
  | [], schema => schema
  | [key], schema => Fields.insert key value schema
  | key :: rest, schema =>
    Fields.insert key (.object (insertPath value rest (below schema key))) schema

/-- The value at a path of names. -/
def lookup? (schema : Schema) : List String → Option Value
  | [] => none
  | [key] => Fields.get? key schema
  | key :: rest =>
    ((Fields.get? key schema).bind Value.fields?).bind fun inner => lookup? inner rest

/-- The value at a path written with dots. -/
def lookupDotted? (schema : Schema) (path : String) : Option Value :=
  lookup? schema (dotted path)

mutual

/-- The value with the fields of an overlay merged into those of a base. Objects merge field by
field; everything else, arrays included, is replaced. -/
def mergeField (base : Option Value) : Value → Value
  | .object incoming =>
    match base with
    | some (.object existing) => .object (mergeInto existing incoming)
    | _ => .object incoming
  | value => value

/-- A base schema with an overlay on top, field by field. -/
def mergeInto (base : Schema) : List (String × Value) → Schema
  | [] => base
  | (key, value) :: rest =>
    mergeInto (Fields.insert key (mergeField (Fields.get? key base) value) base) rest

end

/-- A base schema with an overlay on top: the overlay wins, and objects merge field by field. -/
def deepMerge (base overlay : Schema) : Schema :=
  mergeInto base overlay

/-! ### Field maps -/

mutual

/-- The entries that a property adds to the field map under a target. -/
def fieldMapEntry (target : String) : Value → FieldMap → FieldMap
  | .string path, table => Fields.insert target path table
  | .object fields, table => fieldMapEntries target fields table
  | _, table => table

/-- The entries of the fields below a target, whose names are joined by dots. -/
def fieldMapEntries (above : String) : List (String × Value) → FieldMap → FieldMap
  | [], table => table
  | (key, value) :: rest, table =>
    let target := if above = "" then key else above ++ "." ++ key
    fieldMapEntries above rest (fieldMapEntry target value table)

end

/-- The field map written by an object of paths: nested names become dotted targets, and what is
neither a string nor an object is left out. -/
def fieldMap? : Value → Option FieldMap
  | .object fields => some (fieldMapEntries "" fields [])
  | _ => none

end Schema

end ChartSchema
