import ChartSchema.Value

/-!
# Validation

Checks of a schema before it is used and of a payload before it is drawn. A check never fails; it
lists what it found, each finding with the path that it is about.
-/

namespace ChartSchema

/-- A finding and the path that it is about. -/
structure Issue where
  path : String
  message : String
  deriving DecidableEq

def Issue.display (issue : Issue) : String :=
  issue.path ++ ": " ++ issue.message

/-! ### Schemas -/

/-- The kinds of chart. -/
def chartTypes : List String :=
  ["line", "bar", "pie", "doughnut", "radar", "polarArea", "bubble", "scatter"]

/-- The names under which a source that needs an address only is written. -/
def urlSources : List String := ["rest", "request", "stream", "websocket"]

/-- The names under which a source that needs an address and a query is written. -/
def querySources : List String := ["graphql", "query"]

/-- Whether a text is more than blanks. -/
def hasText (text : String) : Bool :=
  trimBlanks text.toList ≠ []

/-- Whether there is a string that is more than blanks. -/
def isFilled (value : Option Value) : Bool :=
  (value.bind Value.string?).any hasText

/-- A finding unless a condition holds. -/
def requireThat (condition : Bool) (path message : String) : List Issue :=
  if condition then [] else [⟨path, message⟩]

def typeIssues : Option Value → List Issue
  | none => []
  | some (.string kind) =>
    requireThat (decide (kind ∈ chartTypes)) Schema.typeKey
      ("Unsupported chart type '" ++ kind ++ "' (expected one of: " ++
        ", ".intercalate chartTypes ++ ")")
  | some other =>
    [⟨Schema.typeKey, "Chart type must be a string, got " ++ other.kindName⟩]

/-- The findings about a source written as an object. -/
def structuredSourceIssues (fields : Schema) : List Issue :=
  let url :=
    requireThat (isFilled (Fields.get? "url" fields)) "source.url" "Source requires a URL"
  match (Fields.get? "type" fields).bind Value.string? with
  | some kind =>
    if kind ∈ urlSources then url
    else if kind ∈ querySources then
      url ++ requireThat (isFilled (Fields.get? "query" fields)) "source.query"
        "Query source requires non-empty query text"
    else [⟨"source.type", "Unknown source type '" ++ kind ++ "'"⟩]
  | none => [⟨"source.type", "Structured source requires a type"⟩]

/-- The findings about a source written as a call. -/
def callSourceIssues (name : String) (args : List Value) : List Issue :=
  let url := requireThat (isFilled args[0]?) Schema.sourceKey (name ++ "() requires a URL argument")
  if name ∈ urlSources then url
  else if name ∈ querySources then
    url ++ requireThat (isFilled args[1]?) Schema.sourceKey
      (name ++ "() requires non-empty query text")
  else [⟨Schema.sourceKey, "Unknown source function '" ++ name ++ "'"⟩]

def sourceIssues : Value → List Issue
  | .object fields => structuredSourceIssues fields
  | .call name args => callSourceIssues name args
  | .string url =>
    requireThat (hasText url) Schema.sourceKey "Unsupported source value of type string"
  | other => [⟨Schema.sourceKey, "Unsupported source value of type " ++ other.kindName⟩]

mutual

/-- The findings about the value at a path of the field map. -/
def mapIssues (path : String) : Value → List Issue
  | .object fields => mapFieldIssues path fields
  | .string text =>
    requireThat (isDataPath text) path ("Field path '" ++ text ++ "' must start with '$.'")
  | other => [⟨path, "Field path must be a string, got " ++ other.kindName⟩]

/-- The findings about the fields below a path of the field map. -/
def mapFieldIssues (path : String) : List (String × Value) → List Issue
  | [] => []
  | (key, value) :: rest => mapIssues (path ++ "." ++ key) value ++ mapFieldIssues path rest

end

/-- The findings about the type, the source and the field map of a schema. -/
def validateSchema (schema : Schema) : List Issue :=
  typeIssues (Fields.get? Schema.typeKey schema) ++
    ((Fields.get? Schema.sourceKey schema).map sourceIssues).getD [] ++
    ((Fields.get? Schema.mapKey schema).map (mapIssues Schema.mapKey)).getD []

/-! ### Payloads -/

/-- The findings about a dataset at a position. -/
def datasetIssues (position : Nat) (dataset : Json) : List Issue :=
  let path := "datasets[" ++ toString position ++ "]"
  requireThat ((dataset.get? "label").bind Json.string?).isSome (path ++ ".label")
      "Dataset label must be a string" ++
    requireThat ((dataset.get? "data").bind Json.items?).isSome (path ++ ".data")
      "Dataset data must be an array"

/-- The findings about a payload that should have labels and datasets. -/
def validateResponse (payload : Json) : List Issue :=
  match payload with
  | .object fields =>
    let labels := requireThat ((Fields.get? "labels" fields).bind Json.items?).isSome "labels"
      "labels must be an array"
    let datasets := match (Fields.get? "datasets" fields).bind Json.items? with
      | some datasets => (datasets.mapIdx datasetIssues).flatten
      | none => [⟨"datasets", "datasets must be an array"⟩]
    labels ++ datasets
  | _ => [⟨"$", "Response must be an object"⟩]

end ChartSchema
