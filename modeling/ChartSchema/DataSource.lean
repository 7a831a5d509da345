import ChartSchema.Validation
import ChartSchema.Text.Quoted

/-!
# Data sources

Where the data of a chart comes from: a plain request, a query posted to an endpoint, or a live
stream. A source can be written as an address, as a call, or as an object whose field `type` says
which kind it is; each spelling is read into the same description.

An object is read field by field in the order of the names, and the first problem counts: a field
of the wrong type, or both spellings of one field. A missing address or query is noticed last.
-/

namespace ChartSchema

/-! ### Errors -/

/-- Why something is no usable source. -/
inductive SourceFault where
  | unsupportedValue (kind : String)
  | missingUrl (function : String)
  | missingQuery (function : String)
  | unknownFunction (function : String)
  | missingField (name : String)
  /-- A field holds the value where something else is expected. -/
  | unexpected (found : Json) (wanted : String)
  | negativeInterval (value : Int)
  | unknownKind (name : String)
  | duplicateField (name : String)
  /-- An adapter was given a source of another kind. -/
  | wrongAdapter (adapter kind : String)
  /-- The transport refuses the request. -/
  | refused (reason : String)

/-- A JSON value as error messages name it. -/
def describeJson : Json → String
  | .null => "null"
  | .bool value => "boolean `" ++ (if value then "true" else "false") ++ "`"
  | .number (.integer value h) => "integer `" ++ Json.numberText (.integer value h) ++ "`"
  | .number (.real value h) => "floating point `" ++ Json.numberText (.real value h) ++ "`"
  | .string text => "string " ++ quoted text
  | .array _ => "sequence"
  | .object _ => "map"

/-- The names of the kinds of source in an object, all spellings. -/
def sourceKindNames : List String :=
  ["request", "rest", "graphql", "query", "stream", "websocket"]

def SourceFault.message : SourceFault → String
  | .unsupportedValue kind => "unsupported source value of type " ++ kind
  | .missingUrl function => function ++ "() requires a URL argument"
  | .missingQuery function => function ++ "() requires a query argument"
  | .unknownFunction function => "unknown source function '" ++ function ++ "'"
  | .missingField name => "missing field `" ++ name ++ "`"
  | .unexpected found wanted =>
    "invalid type: " ++ describeJson found ++ ", expected " ++ wanted
  | .negativeInterval value => "invalid value: integer `" ++ toString value ++ "`, expected u64"
  | .unknownKind name =>
    "unknown variant `" ++ name ++ "`, expected one of " ++
      ", ".intercalate (sourceKindNames.map fun kind => "`" ++ kind ++ "`")
  | .duplicateField name => "duplicate field `" ++ name ++ "`"
  | .wrongAdapter adapter kind => adapter ++ " adapter cannot fetch a " ++ kind ++ " source"
  | .refused reason => reason

/-! ### Descriptions -/

/-- A plain request. -/
structure RequestSource where
  url : String
  method : Option String
  headers : Fields String
  body : Option Json
  params : Fields Json

/-- A query with its variables, posted to an endpoint. -/
structure QuerySource where
  url : String
  query : String
  bindings : Fields Json
  headers : Fields String

/-- A live stream. -/
structure StreamSource where
  url : String
  refreshInterval : Option Nat

/-- Where the data of a chart comes from. -/
inductive DataSource where
  | request (source : RequestSource)
  | query (source : QuerySource)
  | stream (source : StreamSource)

/-- A request without anything but its address. -/
def RequestSource.ofUrl (url : String) : RequestSource :=
  ⟨url, none, [], none, []⟩

/-- The method of a request in capitals. -/
def RequestSource.verb (source : RequestSource) : String :=
  match source.method with
  | some method => String.ofList (method.toList.map Char.toUpper)
  | none => "GET"

namespace DataSource

/-- The name of the kind of a source. -/
def kindName : DataSource → String
  | .request _ => "rest"
  | .query _ => "graphql"
  | .stream _ => "stream"

def url : DataSource → String
  | .request source => source.url
  | .query source => source.url
  | .stream source => source.url

/-- A field of the shape, if the source has it. -/
def shapeField (present : Bool) (name : String) : List String :=
  if present then [name] else []

/-- The optional fields that a source has. -/
def populatedFields : DataSource → List String
  | .request source =>
    shapeField source.method.isSome "method" ++ shapeField (!source.headers.isEmpty) "headers" ++
      shapeField source.body.isSome "body" ++ shapeField (!source.params.isEmpty) "params"
  | .query source =>
    shapeField (!source.bindings.isEmpty) "variables" ++
      shapeField (!source.headers.isEmpty) "headers"
  | .stream source => shapeField source.refreshInterval.isSome "refreshIntervalMs"

/-- The shape of a source: its kind and which optional fields it has, whatever they hold. -/
def shape (source : DataSource) : String :=
  source.kindName ++ "(" ++ ",".intercalate source.populatedFields ++ ")"

/-! ### JSON -/

/-- A set of named values as an object, left out when it is empty. -/
def objectField (name : String) (fields : Fields Json) : List (String × Json) :=
  if fields.isEmpty then [] else [(name, .object fields)]

/-- A source as an object, with its kind in the field `type`. -/
def toJson : DataSource → Json
  | .request source =>
    .object (Fields.ofList
      ([("type", .string "rest"), ("url", .string source.url)] ++
        Json.optionalField "method" (source.method.map Json.string) ++
        objectField "headers" (Fields.mapValues Json.string source.headers) ++
        Json.optionalField "body" source.body ++ objectField "params" source.params))
  | .query source =>
    .object (Fields.ofList
      ([("type", .string "graphql"), ("url", .string source.url),
          ("query", .string source.query)] ++
        objectField "variables" source.bindings ++
        objectField "headers" (Fields.mapValues Json.string source.headers)))
  | .stream source =>
    .object (Fields.ofList
      ([("type", .string "stream"), ("url", .string source.url)] ++
        Json.optionalField "refreshIntervalMs" (source.refreshInterval.map Json.ofNat)))

/-! ### Reading objects -/

/-- Reads a text. -/
def readText : Json → Except SourceFault String
  | .string text => .ok text
  | other => .error (.unexpected other "a string")

/-- Reads a set of named values. -/
def readFields : Json → Except SourceFault (Fields Json)
  | .object fields => .ok fields
  | other => .error (.unexpected other "a map")

/-- Reads the values of named texts, in order. -/
def readTexts : List (String × Json) → Except SourceFault (List (String × String))
  | [] => .ok []
  | (name, value) :: rest => do
    let text ← readText value
    let rest ← readTexts rest
    .ok ((name, text) :: rest)

/-- Reads a number of milliseconds. -/
def readInterval : Json → Except SourceFault Nat
  | .number (.integer value _) =>
    if 0 ≤ value then .ok value.toNat else .error (.negativeInterval value)
  | other => .error (.unexpected other "u64")

/-- Reads a field if it is there. -/
def readField {α : Type} (name : String) (read : Json → Except SourceFault α)
    (fields : Fields Json) : Except SourceFault (Option α) :=
  match Fields.get? name fields with
  | some value => (read value).map some
  | none => .ok none

/-- Reads a field for which `null` is the same as its absence. -/
def readNullable {α : Type} (name : String) (read : Json → Except SourceFault α)
    (fields : Fields Json) : Except SourceFault (Option α) :=
  match Fields.get? name fields with
  | some .null => .ok none
  | some value => (read value).map some
  | none => .ok none

/-- Reads a field with a second spelling that comes later in the order of the names. -/
def readSpelled {α : Type} (canonical first second : String)
    (read : String → Fields Json → Except SourceFault (Option α)) (fields : Fields Json) :
    Except SourceFault (Option α) := do
  let value ← read first fields
  if Fields.contains first fields then
    if Fields.contains second fields then .error (.duplicateField canonical) else .ok value
  else read second fields

/-- A field that has to be there. -/
def requireField {α : Type} (name : String) : Option α → Except SourceFault α
  | some value => .ok value
  | none => .error (.missingField name)

def readRequest (fields : Fields Json) : Except SourceFault RequestSource := do
  let body ← readNullable "body" .ok fields
  let headers ← readField "headers" (fun value => readFields value >>= readTexts) fields
  let method ← readNullable "method" readText fields
  let params ←
    readSpelled "params" "params" "queryParams" (fun name => readField name readFields) fields
  let url ← readField "url" readText fields
  let url ← requireField "url" url
  .ok ⟨url, method, headers.getD [], body, params.getD []⟩

def readQuery (fields : Fields Json) : Except SourceFault QuerySource := do
  let headers ← readField "headers" (fun value => readFields value >>= readTexts) fields
  let text ← readField "query" readText fields
  let url ← readField "url" readText fields
  let bindings ← readField "variables" readFields fields
  let url ← requireField "url" url
  let text ← requireField "query" text
  .ok ⟨url, text, bindings.getD [], headers.getD []⟩

def readStream (fields : Fields Json) : Except SourceFault StreamSource := do
  let interval ← readSpelled "refreshIntervalMs" "interval" "refreshIntervalMs"
    (fun name => readNullable name readInterval) fields
  let url ← readField "url" readText fields
  let url ← requireField "url" url
  .ok ⟨url, interval⟩

/-- Reads a source written as an object. -/
def ofFields (fields : Fields Json) : Except SourceFault DataSource :=
  match Fields.get? "type" fields with
  | none => .error (.missingField "type")
  | some (.string kind) =>
    if kind = "rest" ∨ kind = "request" then (readRequest fields).map .request
    else if kind = "graphql" ∨ kind = "query" then (readQuery fields).map .query
    else if kind = "stream" ∨ kind = "websocket" then (readStream fields).map .stream
    else .error (.unknownKind kind)
  | some other => .error (.unexpected other "variant identifier")

/-! ### Reading calls -/

/-- The string among the arguments of a call at a position. -/
def stringArgument? (args : List Value) (position : Nat) : Option String :=
  args[position]?.bind Value.string?

/-- The interval that a number of a call means: a positive one, without its fraction. -/
def intervalOf (value : Binary64) : Option Nat :=
  if (Binary64.zero false).less value then some (value.truncateWithin 0 0xffffffffffffffff).toNat
  else none

/-- Reads a source written as a call. -/
def ofCall (function : String) (args : List Value) : Except SourceFault DataSource :=
  match (stringArgument? args 0).filter hasText with
  | none => .error (.missingUrl function)
  | some url =>
    if function = "rest" ∨ function = "request" then
      .ok (.request { RequestSource.ofUrl url with method := stringArgument? args 1 })
    else if function = "graphql" ∨ function = "query" then
      match stringArgument? args 1 with
      | some text => .ok (.query ⟨url, text, [], []⟩)
      | none => .error (.missingQuery function)
    else if function = "stream" ∨ function = "websocket" then
      .ok (.stream ⟨url, (args[1]?.bind Value.number?).bind intervalOf⟩)
    else .error (.unknownFunction function)

/-- Reads the value of a source. -/
def ofValue : Value → Except SourceFault DataSource
  | .string url =>
    if hasText url then .ok (.request (RequestSource.ofUrl url))
    else .error (.unsupportedValue "string")
  | .call function args => ofCall function args
  | .object fields => ofFields (Value.fieldsToJson fields)
  | other => .error (.unsupportedValue other.kindName)

end DataSource

end ChartSchema
