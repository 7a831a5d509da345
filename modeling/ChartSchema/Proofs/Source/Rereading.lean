import ChartSchema.Proofs.Fields.Lookup
import ChartSchema.Proofs.Validation.Usability
import ChartSchema.Proofs.Value.Conversion

/-!
# Sources written as JSON and read back

A source is written as an object with its kind in the field `type`, and such an object is one of the
ways to write a source in a schema. Read as a value of a schema it gives the same source exactly if
the JSON inside the source has the numbers that values write, its body is not `null` and its
interval lies below `2 ^ 53` (`DataSource.ofValue_ofJson_toJson_iff`).

On the way the object becomes a value and JSON again. It has a field `type`, so that it is never
taken for the object of a call (`Value.ofJson_object_of_type`), and what is found under a name is
found there afterwards, converted by itself (`Value.get?_fieldsOfJson`). Each field can therefore be
followed through the reader alone:

* a text comes back as it was (`text_converted`), and so does a table of texts (`converted_texts`);
* a table of JSON comes back converted, and an empty one is not written at all, which the reader
  takes for an empty one (`readField_tableJson`);
* a body comes back exactly if its numbers do and it is not `null` (`filter_body_converted`);
* an interval is read only from an integer, so that it comes back below `2 ^ 53`, where a number of
  a value keeps every integer (`readNullable_interval_iff`).

The readers of the three kinds are then composed of their fields (`readRequest_of_parts`,
`readQuery_of_parts`, `readStream_of_parts`); of two spellings of one field only the first is ever
written, and `readSpelled_of_second_absent` removes the other.
-/

namespace ChartSchema

/-! ### Fields through a value -/

namespace Value

/-- A field is converted where it stands. -/
theorem get?_fieldsOfJson (name : String) (fields : Fields Json) :
    Fields.get? name (fieldsOfJson fields) = (Fields.get? name fields).map ofJson := by
  induction fields with
  | nil => rw [fieldsOfJson, Fields.get?_nil, Fields.get?_nil, Option.map_none]
  | cons field rest ih =>
    obtain ⟨key, json⟩ := field
    rw [fieldsOfJson, Fields.get?_cons, Fields.get?_cons, ih]
    split <;> rfl

/-- An object with a kind is not the object of a call. -/
theorem ofJson_object_of_type {fields : Fields Json} {kind : Json}
    (h : Fields.get? "type" fields = some kind) :
    ofJson (.object fields) = .object (fieldsOfJson fields) := by
  rw [ofJson]
  refine ofFields_of_ne fun name args hcall => ?_
  have htype := get?_fieldsOfJson "type" fields
  rw [h, hcall] at htype
  exact Option.some_ne_none _ htype.symm

end Value

namespace DataSource

/-! ### Parts of a source -/

/-- The JSON inside the source has the numbers that values write, there is no `null` for a body, and
the interval lies below `2 ^ 53`. -/
def IsPlain : DataSource → Prop
  | .request source =>
    (∀ body, source.body = some body → body.Measured ∧ body ≠ .null) ∧
      Json.FieldsMeasured source.params
  | .query source => Json.FieldsMeasured source.bindings
  | .stream source => ∀ interval, source.refreshInterval = some interval → interval < Nat.pow 2 53

/-- A set of named values as it is found: not at all if it is empty. -/
def tableJson (fields : Fields Json) : Option Json :=
  if fields.isEmpty then none else some (.object fields)

/-- A table is written as a field that is left out if the table is empty. -/
theorem objectField_eq (name : String) (fields : Fields Json) :
    objectField name fields = Json.optionalField name (tableJson fields) := by
  rw [objectField, tableJson]
  split <;> rfl

/-! ### Conversion of the parts -/

/-- The fields of an object behind its conversion. -/
def converted (fields : Fields Json) : Fields Json :=
  Value.fieldsToJson (Value.fieldsOfJson fields)

/-- A field is found behind the conversion under its name, converted by itself. -/
theorem get?_converted (name : String) (fields : Fields Json) :
    Fields.get? name (converted fields) =
      (Fields.get? name fields).map fun json => (Value.ofJson json).toJson := by
  rw [converted, Value.get?_fieldsToJson, Value.get?_fieldsOfJson, Option.map_map]
  rfl

/-- The reader of an object with a kind sees the converted fields. -/
theorem ofValue_ofJson_object {fields : Fields Json} {kind : Json}
    (h : Fields.get? "type" fields = some kind) :
    ofValue (Value.ofJson (.object fields)) = ofFields (converted fields) := by
  rw [Value.ofJson_object_of_type h, ofValue, converted]

/-- A text is not changed by the conversion. -/
theorem text_converted (text : String) : (Value.ofJson (.string text)).toJson = .string text := by
  rw [Value.ofJson, Value.toJson]

theorem map_text_converted (text : Option String) :
    (text.map Json.string).map (fun json => (Value.ofJson json).toJson) = text.map Json.string := by
  cases text with
  | none => rfl
  | some text => exact congrArg some (text_converted text)

/-- A table is converted field by field, and an empty one stays away. -/
theorem map_tableJson_converted (fields : Fields Json) :
    (tableJson fields).map (fun json => (Value.ofJson json).toJson) =
      tableJson (converted fields) := by
  cases fields with
  | nil => rfl
  | cons field rest =>
    obtain ⟨key, json⟩ := field
    have hobject : (Value.ofJson (.object ((key, json) :: rest))).toJson =
        .object (converted ((key, json) :: rest)) := by
      rw [Value.ofJson, Value.toJson_ofFields, converted]
    have hcons : converted ((key, json) :: rest) =
        (key, (Value.ofJson json).toJson) :: converted rest := by
      rw [converted, Value.fieldsOfJson, Value.fieldsToJson, converted]
    exact (congrArg some hobject).trans (by rw [tableJson, hcons]; rfl)

/-- Headers and other tables of texts are not changed by the conversion. -/
theorem converted_texts (texts : Fields String) :
    converted (Fields.mapValues Json.string texts) = Fields.mapValues Json.string texts := by
  refine Value.fieldsToJson_fieldsOfJson _ ?_
  induction texts with
  | nil => exact trivial
  | cons field rest ih => exact ⟨trivial, ih⟩

/-- A body comes back as it was exactly if its numbers do, and is taken for none if it is `null`. -/
theorem filter_body_converted (body : Option Json) :
    (body.map fun json => (Value.ofJson json).toJson).filter (fun json => !json.isNull) = body ↔
      ∀ json, body = some json → json.Measured ∧ json ≠ .null := by
  cases body with
  | none => exact iff_of_true rfl fun json hjson => absurd hjson.symm (Option.some_ne_none json)
  | some body =>
    constructor
    · intro h json hjson
      cases hjson
      obtain ⟨hsome, hkept⟩ := Option.filter_eq_some_iff.1 h
      have hsame : (Value.ofJson body).toJson = body := Option.some.inj hsome
      refine ⟨hsame ▸ Value.measured_toJson (Value.ofJson body), ?_⟩
      rintro rfl
      cases hkept
    · intro h
      obtain ⟨hmeasured, hnull⟩ := h body rfl
      rw [Option.map_some, Value.toJson_ofJson body hmeasured]
      refine Option.filter_eq_some_iff.2 ⟨rfl, ?_⟩
      cases body <;> first | rfl | exact absurd rfl hnull

/-! ### Reading what was written -/

section Readers

variable {α : Type} {name : String} {fields : Fields Json}

/-- A table of texts is read back. -/
theorem readTexts_mapValues (texts : Fields String) :
    readTexts (Fields.mapValues Json.string texts) = .ok texts := by
  induction texts with
  | nil => rfl
  | cons field rest ih =>
    obtain ⟨key, text⟩ := field
    have htail : readTexts (List.map (fun field => (field.1, Json.string field.2)) rest) =
        .ok rest := ih
    rw [Fields.mapValues, List.map_cons, readTexts, readText, htail]
    rfl

/-- A table is read back, also if it was empty and has not been written. -/
theorem readField_tableJson {inner : Fields Json} (h : Fields.get? name fields = tableJson inner) :
    ∃ found, readField name readFields fields = .ok found ∧ found.getD [] = inner := by
  rw [readField, h]
  cases inner with
  | nil => exact ⟨none, rfl, rfl⟩
  | cons field rest => exact ⟨some (field :: rest), rfl, rfl⟩

/-- As `readField_tableJson`, for a table of texts. -/
theorem readField_texts {texts : Fields String}
    (h : Fields.get? name fields = tableJson (Fields.mapValues Json.string texts)) :
    ∃ found, readField name (fun value => readFields value >>= readTexts) fields = .ok found ∧
      found.getD [] = texts := by
  rw [readField, h]
  cases texts with
  | nil => exact ⟨none, rfl, rfl⟩
  | cons field rest =>
    have hread := readTexts_mapValues (field :: rest)
    exact ⟨some (field :: rest), congrArg (Except.map some) hread, rfl⟩

/-- An optional text is read back. -/
theorem readNullable_text {text : Option String}
    (h : Fields.get? name fields = text.map Json.string) :
    readNullable name readText fields = .ok text := by
  rw [readNullable, h]
  cases text <;> rfl

/-- What is read without a test is the field itself, unless it is `null`. -/
theorem readNullable_ok (name : String) (fields : Fields Json) :
    readNullable name .ok fields =
      .ok ((Fields.get? name fields).filter fun json => !json.isNull) := by
  rw [readNullable]
  cases Fields.get? name fields with
  | none => rfl
  | some json => cases json <;> rfl

variable {canonical first second : String}
  {read : String → Fields Json → Except SourceFault (Option α)}

/-- Without the second spelling the first is read. -/
theorem readSpelled_of_second_absent (h : Fields.get? second fields = none)
    (hread : ∀ name, Fields.get? name fields = none → read name fields = .ok none) :
    readSpelled canonical first second read fields = read first fields := by
  rw [readSpelled, Fields.contains, Fields.contains, h]
  cases hfirst : Fields.get? first fields with
  | none =>
    rw [hread first hfirst]
    exact hread second h
  | some json => cases read first fields <;> rfl

/-- Without the first spelling the second is read. -/
theorem readSpelled_of_first_absent (h : Fields.get? first fields = none)
    (hread : ∀ name, Fields.get? name fields = none → read name fields = .ok none) :
    readSpelled canonical first second read fields = read second fields := by
  rw [readSpelled, Fields.contains, h, hread first h]
  rfl

theorem readField_of_absent {readOne : Json → Except SourceFault α}
    (h : Fields.get? name fields = none) : readField name readOne fields = .ok none := by
  rw [readField, h]

theorem readNullable_of_absent {readOne : Json → Except SourceFault α}
    (h : Fields.get? name fields = none) : readNullable name readOne fields = .ok none := by
  rw [readNullable, h]

/-- An interval is read exactly if it is written as an integer. -/
theorem readInterval_eq_ok_iff {json : Json} {count : Nat} : readInterval json = .ok count ↔
    ∃ value inRange, json = .number (.integer value inRange) ∧ value = count := by
  constructor
  · intro h
    cases json with
    | number number =>
      cases number with
      | integer value inRange =>
        rw [readInterval] at h
        split at h
        · next hnonneg =>
          have hcount : value.toNat = count := Except.ok.inj h
          exact ⟨value, inRange, rfl, by omega⟩
        · cases h
      | real value isFinite => cases h
    | null | bool value | string text | array items | object inner => cases h
  · rintro ⟨_, inRange, rfl, rfl⟩
    rw [readInterval, if_pos (Int.natCast_nonneg count), Int.toNat_natCast]

/-- What is read from an optional field is read from what stands in it. -/
theorem readNullable_eq_ok_some {readOne : Json → Except SourceFault α} {found : α}
    (h : readNullable name readOne fields = .ok (some found)) :
    ∃ json, Fields.get? name fields = some json ∧ readOne json = .ok found := by
  rw [readNullable] at h
  split at h
  · cases h
  · next json _ hget =>
    refine ⟨json, hget, ?_⟩
    cases hread : readOne json with
    | error fault =>
      rw [hread] at h
      cases h
    | ok value =>
      rw [hread] at h
      exact congrArg Except.ok (Option.some.inj (Except.ok.inj h))
  · cases h

/-- An interval comes back exactly if it lies below `2 ^ 53`. -/
theorem readNullable_interval_iff {interval : Option Nat}
    (h : Fields.get? name fields =
      (interval.map Json.ofNat).map fun json => (Value.ofJson json).toJson) :
    readNullable name readInterval fields = .ok interval ↔
      ∀ count, interval = some count → count < Nat.pow 2 53 := by
  cases interval with
  | none =>
    rw [readNullable_of_absent h]
    exact iff_of_true rfl fun count hcount => absurd hcount.symm (Option.some_ne_none count)
  | some interval =>
    have hget : Fields.get? name fields = some (Value.ofJson (Json.ofNat interval)).toJson := h
    constructor
    · intro hread count hcount
      obtain rfl := Option.some.inj hcount
      obtain ⟨json, hjson, hone⟩ := readNullable_eq_ok_some hread
      obtain ⟨value, inRange, rfl, rfl⟩ := readInterval_eq_ok_iff.1 hone
      -- what a value writes as an integer is below the bound
      generalize Json.ofNat interval = written at hget
      have hmeasured := Value.measured_toJson (Value.ofJson written)
      rw [Option.some.inj (hget.symm.trans hjson), Json.Measured, JsonNumber.IsMeasure,
        Int.natAbs_natCast] at hmeasured
      exact hmeasured
    · intro hsmall
      have hinterval : (interval : Int).natAbs < Nat.pow 2 53 := by
        rw [Int.natAbs_natCast]
        exact hsmall interval rfl
      have hmeasure :
          (JsonNumber.integer interval (JsonNumber.inRange_of_lt hinterval)).IsMeasure := hinterval
      rw [Json.ofNat, Json.ofInt_of_lt hinterval, Value.toJson_ofJson_number hmeasure] at hget
      rw [readNullable, hget]
      exact congrArg (Except.map some) (readInterval_eq_ok_iff.2 ⟨_, _, rfl, rfl⟩)

end Readers

/-! ### Whole sources -/

section Sources

variable {fields : Fields Json} {url : String} {headers : Fields String}

/-- A request is read from its fields as they were written. -/
theorem readRequest_of_parts {method : Option String} {body : Option Json} {params : Fields Json}
    (hurl : Fields.get? "url" fields = some (.string url))
    (hmethod : Fields.get? "method" fields = method.map Json.string)
    (hheaders : Fields.get? "headers" fields = tableJson (Fields.mapValues Json.string headers))
    (hbody : Fields.get? "body" fields = body)
    (hparams : Fields.get? "params" fields = tableJson params)
    (hother : Fields.get? "queryParams" fields = none) :
    readRequest fields =
      .ok ⟨url, method, headers, body.filter fun json => !json.isNull, params⟩ := by
  obtain ⟨texts, hreadHeaders, rfl⟩ := readField_texts hheaders
  obtain ⟨table, hreadParams, rfl⟩ := readField_tableJson hparams
  rw [readRequest, readNullable_ok, hbody, hreadHeaders, readNullable_text hmethod,
    readSpelled_of_second_absent hother fun name => readField_of_absent, hreadParams,
    readField_text hurl]
  rfl

/-- A query is read from its fields as they were written. -/
theorem readQuery_of_parts {text : String} {bindings : Fields Json}
    (hurl : Fields.get? "url" fields = some (.string url))
    (htext : Fields.get? "query" fields = some (.string text))
    (hbindings : Fields.get? "variables" fields = tableJson bindings)
    (hheaders : Fields.get? "headers" fields = tableJson (Fields.mapValues Json.string headers)) :
    readQuery fields = .ok ⟨url, text, bindings, headers⟩ := by
  obtain ⟨texts, hreadHeaders, rfl⟩ := readField_texts hheaders
  obtain ⟨table, hreadBindings, rfl⟩ := readField_tableJson hbindings
  rw [readQuery, hreadHeaders, readField_text htext, readField_text hurl, hreadBindings]
  rfl

/-- A stream is read from its fields, the interval under the name that is written. -/
theorem readStream_of_parts (hurl : Fields.get? "url" fields = some (.string url))
    (hother : Fields.get? "interval" fields = none) :
    readStream fields = (readNullable "refreshIntervalMs" readInterval fields).map
      fun interval => ⟨url, interval⟩ := by
  rw [readStream, readSpelled_of_first_absent hother fun name => readNullable_of_absent,
    readField_text hurl]
  cases readNullable "refreshIntervalMs" readInterval fields <;> rfl

end Sources

/-- A request comes back with its body and its parameters converted. -/
theorem ofValue_ofJson_request (source : RequestSource) :
    ofValue (Value.ofJson (toJson (.request source))) = .ok (.request { source with
      body := (source.body.map fun json => (Value.ofJson json).toJson).filter
        fun json => !json.isNull
      params := converted source.params }) := by
  rw [toJson, objectField_eq, objectField_eq]
  generalize hfields : Fields.ofList _ = fields
  have htype : Fields.get? "type" fields = some (.string "rest") := by simp [← hfields]
  have hurl : Fields.get? "url" fields = some (.string source.url) := by simp [← hfields]
  have hmethod : Fields.get? "method" fields = source.method.map Json.string := by
    simp [← hfields]
  have hheaders : Fields.get? "headers" fields =
      tableJson (Fields.mapValues Json.string source.headers) := by simp [← hfields]
  have hbody : Fields.get? "body" fields = source.body := by simp [← hfields]
  have hparams : Fields.get? "params" fields = tableJson source.params := by simp [← hfields]
  have hother : Fields.get? "queryParams" fields = none := by simp [← hfields]
  rw [ofValue_ofJson_object htype, ofFields, get?_converted, htype, Option.map_some,
    text_converted]
  dsimp only
  rw [if_pos (.inl rfl), readRequest_of_parts
    (by rw [get?_converted, hurl, Option.map_some, text_converted])
    (by rw [get?_converted, hmethod, map_text_converted])
    (by rw [get?_converted, hheaders, map_tableJson_converted, converted_texts])
    (by rw [get?_converted, hbody])
    (by rw [get?_converted, hparams, map_tableJson_converted])
    (by rw [get?_converted, hother, Option.map_none])]
  rfl

/-- A query comes back with its variables converted. -/
theorem ofValue_ofJson_query (source : QuerySource) :
    ofValue (Value.ofJson (toJson (.query source))) =
      .ok (.query { source with bindings := converted source.bindings }) := by
  rw [toJson, objectField_eq, objectField_eq]
  generalize hfields : Fields.ofList _ = fields
  have htype : Fields.get? "type" fields = some (.string "graphql") := by simp [← hfields]
  have hurl : Fields.get? "url" fields = some (.string source.url) := by simp [← hfields]
  have htext : Fields.get? "query" fields = some (.string source.query) := by simp [← hfields]
  have hbindings : Fields.get? "variables" fields = tableJson source.bindings := by
    simp [← hfields]
  have hheaders : Fields.get? "headers" fields =
      tableJson (Fields.mapValues Json.string source.headers) := by simp [← hfields]
  rw [ofValue_ofJson_object htype, ofFields, get?_converted, htype, Option.map_some,
    text_converted]
  dsimp only
  rw [if_neg (by decide), if_pos (.inl rfl), readQuery_of_parts
    (by rw [get?_converted, hurl, Option.map_some, text_converted])
    (by rw [get?_converted, htext, Option.map_some, text_converted])
    (by rw [get?_converted, hbindings, map_tableJson_converted])
    (by rw [get?_converted, hheaders, map_tableJson_converted, converted_texts])]
  rfl

/-- A stream comes back exactly if its interval does. -/
theorem ofValue_ofJson_stream (source : StreamSource) :
    ofValue (Value.ofJson (toJson (.stream source))) = .ok (.stream source) ↔
      ∀ count, source.refreshInterval = some count → count < Nat.pow 2 53 := by
  rw [toJson]
  generalize hfields : Fields.ofList _ = fields
  have htype : Fields.get? "type" fields = some (.string "stream") := by simp [← hfields]
  have hurl : Fields.get? "url" fields = some (.string source.url) := by simp [← hfields]
  have hinterval : Fields.get? "refreshIntervalMs" fields =
      source.refreshInterval.map Json.ofNat := by simp [← hfields]
  have hother : Fields.get? "interval" fields = none := by simp [← hfields]
  rw [ofValue_ofJson_object htype, ofFields, get?_converted, htype, Option.map_some,
    text_converted]
  dsimp only
  rw [if_neg (by decide), if_neg (by decide), if_pos (.inl rfl), readStream_of_parts
    (by rw [get?_converted, hurl, Option.map_some, text_converted])
    (by rw [get?_converted, hother, Option.map_none]),
    ← readNullable_interval_iff (by rw [get?_converted, hinterval])]
  cases readNullable "refreshIntervalMs" readInterval (converted fields) with
  | error fault => exact iff_of_false (fun h => by cases h) (fun h => by cases h)
  | ok interval =>
    constructor
    · intro h
      exact congrArg Except.ok (congrArg StreamSource.refreshInterval
        (DataSource.stream.inj (Except.ok.inj h)))
    · intro h
      rw [Except.ok.inj h]
      rfl

/-- **A source written as JSON is read back** from its value exactly if the JSON inside it has the
numbers that values write, its body is not `null` and its interval lies below `2 ^ 53`. -/
theorem ofValue_ofJson_toJson_iff (source : DataSource) :
    ofValue (Value.ofJson source.toJson) = .ok source ↔ source.IsPlain := by
  cases source with
  | request source =>
    rw [ofValue_ofJson_request, IsPlain, ← filter_body_converted,
      ← Value.fieldsToJson_fieldsOfJson_iff, Except.ok.injEq, DataSource.request.injEq,
      RequestSource.mk.injEq]
    simp only [true_and, converted]
  | query source =>
    rw [ofValue_ofJson_query, IsPlain, ← Value.fieldsToJson_fieldsOfJson_iff, Except.ok.injEq,
      DataSource.query.injEq, QuerySource.mk.injEq]
    simp only [true_and, and_true, converted]
  | stream source => rw [ofValue_ofJson_stream, IsPlain]

end DataSource

end ChartSchema
