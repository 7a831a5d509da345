import ChartSchema.Json.Text
import ChartSchema.Number.Decimal
import ChartSchema.Text.Blank

/-!
# Chart responses

The form in which data reaches a chart: labels, datasets, and optionally drawing options and
information about the data. A payload is decoded in one of two ways. The strict way accepts only
what has this form already. The lossy way takes any payload, keeps whatever conforms, and turns
the rest into texts and gaps where it can; a dataset that still does not conform is dropped.
-/

namespace ChartSchema

/-- A point of a scatter or bubble chart. -/
structure Point where
  x : Binary64
  y : Binary64
  r : Option Binary64
  deriving DecidableEq

/-- The data of a dataset: numbers with gaps, or points. -/
inductive DataPoints where
  | numbers (items : List (Option Binary64))
  | points (items : List Point)
  deriving DecidableEq

/-- One series of a chart. `extra` holds fields for the drawing, which are passed on as they
are. -/
structure Dataset where
  id : Option String
  label : String
  data : DataPoints
  backgroundColor : Option Json
  borderColor : Option Json
  borderWidth : Option Binary64
  extra : Fields Json

/-- Information about the data. -/
structure ResponseMeta where
  title : Option String
  generatedAt : Option String
  cacheControl : Option String
  deriving DecidableEq

/-- What a chart is drawn from. -/
structure ChartResponse where
  labels : List String
  datasets : List Dataset
  options : Option (Fields Json)
  info : Option ResponseMeta

/-- A response without anything in it. -/
def ChartResponse.empty : ChartResponse :=
  ⟨[], [], none, none⟩

def DataPoints.length : DataPoints → Nat
  | .numbers items => items.length
  | .points items => items.length

/-! ### Writing -/

def Point.toJson (point : Point) : Json :=
  .object (Fields.ofList
    ([("x", .ofBinary64 point.x), ("y", .ofBinary64 point.y)] ++
      Json.optionalField "r" (point.r.map Json.ofBinary64)))

def DataPoints.toJson : DataPoints → Json
  | .numbers items => .array (items.map fun item => (item.map Json.ofBinary64).getD .null)
  | .points items => .array (items.map Point.toJson)

/-- A dataset as an object, its extra fields beside its own. -/
def Dataset.toJson (dataset : Dataset) : Json :=
  .object (Fields.ofList
    (Json.optionalField "id" (dataset.id.map Json.string) ++
      [("label", .string dataset.label), ("data", dataset.data.toJson)] ++
      Json.optionalField "backgroundColor" dataset.backgroundColor ++
      Json.optionalField "borderColor" dataset.borderColor ++
      Json.optionalField "borderWidth" (dataset.borderWidth.map Json.ofBinary64) ++ dataset.extra))

def ResponseMeta.toJson (info : ResponseMeta) : Json :=
  .object (Fields.ofList
    (Json.optionalField "title" (info.title.map Json.string) ++
      Json.optionalField "generatedAt" (info.generatedAt.map Json.string) ++
      Json.optionalField "cacheControl" (info.cacheControl.map Json.string)))

def ChartResponse.toJson (response : ChartResponse) : Json :=
  .object (Fields.ofList
    ([("labels", .array (response.labels.map Json.string)),
        ("datasets", .array (response.datasets.map Dataset.toJson))] ++
      Json.optionalField "options" (response.options.map Json.object) ++
      Json.optionalField "meta" (response.info.map ResponseMeta.toJson)))

/-! ### Strict decoding -/

/-- The number of a value. -/
def decodeNumber? : Json → Option Binary64
  | .number value => some value.toBinary64
  | _ => none

/-- A value that may be absent: `null` says the same as no field at all. -/
def decodeOptional? {α : Type} (decode : Json → Option α) : Option Json → Option (Option α)
  | none => some none
  | some .null => some none
  | some value => (decode value).map some

/-- A value that falls back on a default where there is no field. -/
def decodeOr? {α : Type} (default : α) (decode : Json → Option α) : Option Json → Option α
  | none => some default
  | some value => decode value

/-- Every item of an array decoded. -/
def decodeItems? {α : Type} (decode : Json → Option α) : Json → Option (List α)
  | .array items => items.mapM decode
  | _ => none

/-- The parts of a record: the fields of an object by name, or the items of an array that has no
more items than the record has fields, in the order of the fields. -/
def recordParts? (names : List String) : Json → Option (String → Option Json)
  | .object fields => some fun name => Fields.get? name fields
  | .array items =>
    if items.length ≤ names.length then some fun name => (names.zip items).lookup name else none
  | _ => none

/-- A point has its first two coordinates at least. -/
def Point.ofJson? (value : Json) : Option Point := do
  let part ← recordParts? ["x", "y", "r"] value
  let x ← (part "x").bind decodeNumber?
  let y ← (part "y").bind decodeNumber?
  let r ← decodeOptional? decodeNumber? (part "r")
  some ⟨x, y, r⟩

/-- An item of a list of numbers: a number, or `null` for a gap. -/
def decodeGap? : Json → Option (Option Binary64)
  | .null => some none
  | value => (decodeNumber? value).map some

/-- Data are read as numbers with gaps if they can be, and as points otherwise. -/
def DataPoints.ofJson? (value : Json) : Option DataPoints :=
  match decodeItems? decodeGap? value with
  | some items => some (.numbers items)
  | none => (decodeItems? Point.ofJson? value).map .points

/-- The fields of a dataset that have a meaning here. -/
def Dataset.fieldNames : List String :=
  ["id", "label", "data", "backgroundColor", "borderColor", "borderWidth"]

def Dataset.ofFields? (fields : Fields Json) : Option Dataset := do
  let part (name : String) : Option Json := Fields.get? name fields
  let id ← decodeOptional? Json.string? (part "id")
  let label ← decodeOr? "" Json.string? (part "label")
  let data ← decodeOr? (.numbers []) DataPoints.ofJson? (part "data")
  let backgroundColor ← decodeOptional? some (part "backgroundColor")
  let borderColor ← decodeOptional? some (part "borderColor")
  let borderWidth ← decodeOptional? decodeNumber? (part "borderWidth")
  let extra := fields.filter fun (name, _) => name ∉ Dataset.fieldNames
  some ⟨id, label, data, backgroundColor, borderColor, borderWidth, extra⟩

def Dataset.ofJson? (value : Json) : Option Dataset :=
  value.fields?.bind Dataset.ofFields?

def ResponseMeta.ofJson? (value : Json) : Option ResponseMeta := do
  let part ← recordParts? ["title", "generatedAt", "cacheControl"] value
  let title ← decodeOptional? Json.string? (part "title")
  let generatedAt ← decodeOptional? Json.string? (part "generatedAt")
  let cacheControl ← decodeOptional? Json.string? (part "cacheControl")
  some ⟨title, generatedAt, cacheControl⟩

/-- The response that a payload is, if it has the form of one. -/
def ChartResponse.ofJson? (value : Json) : Option ChartResponse := do
  let part ← recordParts? ["labels", "datasets", "options", "meta"] value
  let labels ← decodeOr? [] (decodeItems? Json.string?) (part "labels")
  let datasets ← decodeOr? [] (decodeItems? Dataset.ofJson?) (part "datasets")
  let options ← decodeOptional? Json.fields? (part "options")
  let info ← decodeOptional? ResponseMeta.ofJson? (part "meta")
  some ⟨labels, datasets, options, info⟩

/-! ### Lossy decoding -/

/-- A label: a text as it is, nothing for `null`, and JSON text for everything else. -/
def labelText : Json → String
  | .string text => text
  | .null => ""
  | value => value.toText

/-- A number, or a text that reads as a finite number; everything else is a gap. -/
def lossyNumber : Json → Json
  | .number value => .number value
  | .string text => ((Binary64.ofText? (trimBlanks text.toList)).map Json.ofBinary64).getD .null
  | _ => .null

/-- The data of a dataset. A list with an object in it is left as it is. -/
def lossyData : Json → Json
  | .array items =>
    if items.any Json.isObject then .array items else .array (items.map lossyNumber)
  | _ => .array []

/-- The fields of a dataset with its label made a text and its data made numbers. -/
def lossyFields (fields : Fields Json) : Fields Json :=
  let fields := match Fields.get? "label" fields with
    | some label => Fields.insert "label" (.string (labelText label)) fields
    | none => fields
  match Fields.get? "data" fields with
  | some data => Fields.insert "data" (lossyData data) fields
  | none => fields

/-- The dataset that is left of a value, if any. -/
def Dataset.ofJsonLossy? (value : Json) : Option Dataset :=
  value.fields?.bind fun fields => Dataset.ofFields? (lossyFields fields)

/-- The response that is left of any payload. -/
def ChartResponse.ofJsonLossy : Json → ChartResponse
  | .object fields =>
    { labels := (((Fields.get? "labels" fields).bind Json.items?).getD []).map labelText
      datasets :=
        (((Fields.get? "datasets" fields).bind Json.items?).getD []).filterMap
          Dataset.ofJsonLossy?
      options := (Fields.get? "options" fields).bind Json.fields?
      info := (Fields.get? "meta" fields).bind ResponseMeta.ofJson? }
  | _ => .empty

end ChartSchema
