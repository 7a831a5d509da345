import ChartSchema.Fields
import ChartSchema.Number.Binary64

/-!
# JSON values

A JSON number keeps its kind: a number written without a point or an exponent is an integer if it
fits 64 bits, and every other number is a finite binary64 value. The two kinds are different
values even where they denote the same number, so `1` and `1.0` are unequal inside arrays and
objects and have different texts.
-/

namespace ChartSchema

/-- A JSON number of either kind. Integers lie between the least signed and the greatest unsigned
64-bit value. -/
inductive JsonNumber where
  | integer (value : Int) (inRange : -0x8000000000000000 ≤ value ∧ value < 0x10000000000000000)
  | real (value : Binary64) (isFinite : value.isFinite = true)
  deriving DecidableEq

namespace JsonNumber

/-- The number as a binary64 value, rounded where an integer has more than 53 bits. -/
def toBinary64 : JsonNumber → Binary64
  | .integer value _ => .ofInt value
  | .real value _ => value

/-- Equality of numbers of one kind; the real zeros of both signs are equal. -/
def equals : JsonNumber → JsonNumber → Bool
  | .integer a _, .integer b _ => a = b
  | .real a _, .real b _ => a.equals b
  | _, _ => false

end JsonNumber

/-- A JSON value. The fields of an object are in increasing order of their names. -/
inductive Json where
  | null
  | bool (value : Bool)
  | number (value : JsonNumber)
  | string (text : String)
  | array (items : List Json)
  | object (fields : List (String × Json))
  deriving Inhabited

namespace Json

/-- The integer as a JSON value, rounded to a real number if it does not fit 64 bits. -/
def ofInt (value : Int) : Json :=
  if h : -0x8000000000000000 ≤ value ∧ value < 0x10000000000000000 then .number (.integer value h)
  else if h : (Binary64.ofInt value).isFinite then .number (.real (.ofInt value) h)
  else .null

def ofNat (value : Nat) : Json :=
  ofInt value

/-- The real number as a JSON value, `null` for what JSON cannot express. -/
def ofBinary64 (value : Binary64) : Json :=
  if h : value.isFinite then .number (.real value h) else .null

/-- The binary64 value as a JSON integer where it is one and integers of its size are exact, and
as a JSON real otherwise. -/
def ofMeasure (value : Binary64) : Json :=
  match value.exactInteger? with
  | some n => ofInt n
  | none => ofBinary64 value

/-- The text of a string value. -/
def string? : Json → Option String
  | .string text => some text
  | _ => none

/-- The items of an array. -/
def items? : Json → Option (List Json)
  | .array items => some items
  | _ => none

/-- The fields of an object. -/
def fields? : Json → Option (Fields Json)
  | .object fields => some fields
  | _ => none

/-- The field of an object under a name. -/
def get? (value : Json) (key : String) : Option Json :=
  value.fields?.bind (Fields.get? key)

def isNull : Json → Bool
  | .null => true
  | _ => false

def isObject : Json → Bool
  | .object _ => true
  | _ => false

/-- A field of an object that is left out when there is nothing to write. -/
def optionalField (name : String) (value : Option Json) : List (String × Json) :=
  value.toList.map fun value => (name, value)

/-! ### Equality -/

mutual

/-- Equality of values, kind by kind; see `JsonNumber.equals` for numbers. -/
def equals : Json → Json → Bool
  | .null, .null => true
  | .bool a, .bool b => a == b
  | .number a, .number b => a.equals b
  | .string a, .string b => a == b
  | .array a, .array b => itemsEqual a b
  | .object a, .object b => fieldsEqual a b
  | _, _ => false

/-- Equality of two lists of items, position by position. -/
def itemsEqual : List Json → List Json → Bool
  | [], [] => true
  | a :: as, b :: bs => equals a b && itemsEqual as bs
  | _, _ => false

/-- Equality of two lists of fields, names included. -/
def fieldsEqual : List (String × Json) → List (String × Json) → Bool
  | [], [] => true
  | (k, a) :: as, (l, b) :: bs => k == l && equals a b && fieldsEqual as bs
  | _, _ => false

end

/-! ### Order of the fields -/

mutual

/-- Every object inside the value has its fields in increasing order of their names. -/
def Ordered : Json → Prop
  | .array items => ItemsOrdered items
  | .object fields => Fields.Ordered fields ∧ FieldsOrdered fields
  | _ => True

/-- `Ordered` for every item of a list. -/
def ItemsOrdered : List Json → Prop
  | [] => True
  | item :: rest => item.Ordered ∧ ItemsOrdered rest

/-- `Ordered` for the value of every field. -/
def FieldsOrdered : List (String × Json) → Prop
  | [] => True
  | (_, value) :: rest => value.Ordered ∧ FieldsOrdered rest

end

end Json

end ChartSchema
