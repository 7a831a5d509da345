import ChartSchema.Document.Token
import ChartSchema.Value

/-!
# Schema documents

A document is a list of statements, each of which puts a value at a dotted path of property names.
Its schema is built by carrying the statements out in order, so that later ones win.
-/

namespace ChartSchema

/-- The value of a statement as it is written. -/
inductive Written where
  | string (text : String)
  | number (value : Binary64)
  | boolean (value : Bool)
  /-- A bare word, which stands for itself. -/
  | identifier (name : String)
  /-- `$name`, left to the resolution. -/
  | variable (name : String)
  /-- A path into the data of the chart, such as `$.a.b[0]`. -/
  | dataPath (text : String)
  /-- A call. The parser keeps only strings and numbers among its arguments. -/
  | call (name : String) (args : List Written)
  /-- An expression between the braces of an interpolation. -/
  | interpolation (expression : String)

/-- A statement: the value written for a path, and where the statement starts. -/
structure Statement where
  path : List String
  value : Written
  span : Span

/-- The path of a statement with dots between the names. -/
def Statement.dottedPath (statement : Statement) : String :=
  ".".intercalate statement.path

/-- A comment and the line on which it starts. -/
structure Comment where
  text : String
  line : Nat
  deriving DecidableEq

/-- The statements and the comments of a document, each in the order of the text. -/
structure Document where
  statements : List Statement
  comments : List Comment

/-! ### The schema of a document -/

mutual

/-- The property value that is written: an interpolation becomes a callback, or its text if it
does not compile. -/
def Written.toValue : Written → Value
  | .string text => .string text
  | .number value => .number value
  | .boolean value => .bool value
  | .identifier name => .string name
  | .variable name => .string name
  | .dataPath text => .string text
  | .call name args => .call name (itemsToValues args)
  | .interpolation expression =>
    match Callback.compile expression with
    | .ok callback => .deferred callback
    | .error _ => .string expression

/-- The property value of every item of a list. -/
def Written.itemsToValues : List Written → List Value
  | [] => []
  | item :: rest => item.toValue :: itemsToValues rest

end

/-- The schema with a statement carried out. -/
def Statement.apply (schema : Schema) (statement : Statement) : Schema :=
  schema.insertPath statement.value.toValue statement.path

/-- The schema that a document writes. -/
def Document.schema (document : Document) : Schema :=
  document.statements.foldl Statement.apply []

/-! ### Reserved properties -/

/-- The reserved properties of a schema, as far as they have the form they need. -/
structure Metadata where
  base : Option String
  source : Option Value
  map : Option FieldMap

def Schema.metadata (schema : Schema) : Metadata where
  base := (Fields.get? Schema.baseKey schema).bind Value.string?
  source := Fields.get? Schema.sourceKey schema
  map := (Fields.get? Schema.mapKey schema).bind Schema.fieldMap?

end ChartSchema
