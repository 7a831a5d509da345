import ChartSchema.Proofs.Number.Rounding
import ChartSchema.Proofs.Response.Agreement

/-!
# Canonical responses

What lossy decoding gives is **canonical**: all numbers are finite, lists of points are not empty,
colours are not `null`, and the extra fields of a dataset are in order and none of its own
(`ChartResponse.isCanonical_ofJsonLossy`). A canonical response is written so that the checks find
nothing (`validateResponse_toJson`) and so that it is read back as it was, strictly
(`ChartResponse.ofJson?_toJson`) and lossily. Hence lossy decoding is a projection onto the
canonical responses (`ofJsonLossy_projects`).

Each of the conditions is there for something that would be lost in writing. A number that is not
finite would be written as `null`. An empty list of points would be read as an empty list of
numbers. A colour that is `null` would be read as no colour. Extra fields that are not in order, or
have a name of the dataset's own fields, would be put elsewhere or be hidden. What was decoded has
none of this, since it was read from JSON, in which there is none.

Writing and reading are matched part by part. The written fields of a dataset are found again under
their names (`Dataset.get?_written`), and each part is decoded from what it is written as: lists
item by item (`decodeItems?_map`), optional parts if they are there (`decodeOptional?_map`), data as
what they are (`DataPoints.ofJson?_toJson`).

For lossy decoding nothing of this is done again. A written response conforms, so that lossy and
strict decoding agree on it, unless it lists the points of a dataset; but points are written as
objects (`DataPoints.listsPoints_toJson`).
-/

namespace ChartSchema

/-! ### The form of a response -/

/-- The coordinates of a point are finite, and so is its radius. -/
def Point.IsCanonical (point : Point) : Prop :=
  point.x.isFinite = true ∧ point.y.isFinite = true ∧ ∀ r ∈ point.r, r.isFinite = true

/-- Points are at least one; an empty list counts as numbers. -/
def DataPoints.IsCanonical : DataPoints → Prop
  | .numbers items => ∀ item ∈ items, ∀ value ∈ item, value.isFinite = true
  | .points items => items ≠ [] ∧ ∀ point ∈ items, point.IsCanonical

/-- A dataset that is written so that it is read back. -/
structure Dataset.IsCanonical (dataset : Dataset) : Prop where
  data : dataset.data.IsCanonical
  backgroundColor : dataset.backgroundColor ≠ some .null
  borderColor : dataset.borderColor ≠ some .null
  borderWidth : ∀ width ∈ dataset.borderWidth, width.isFinite = true
  ordered : Fields.Ordered dataset.extra
  extra : ∀ name ∈ Dataset.fieldNames, Fields.get? name dataset.extra = none

/-- A response all of whose datasets are canonical. -/
def ChartResponse.IsCanonical (response : ChartResponse) : Prop :=
  ∀ dataset ∈ response.datasets, dataset.IsCanonical

/-! ### What is decoded is canonical -/

theorem isFinite_of_decodeNumber? {value : Json} {number : Binary64}
    (h : decodeNumber? value = some number) : number.isFinite = true := by
  obtain ⟨held, -, rfl⟩ := decodeNumber?_eq_some_iff.1 h
  exact held.isFinite_toBinary64

/-- An optional part is decoded from a value other than `null`. -/
theorem exists_of_decodeOptional? {α : Type} {decode : Json → Option α} {part : Option Json}
    {result : α} (h : decodeOptional? decode part = some (some result)) :
    ∃ value, value ≠ .null ∧ decode value = some result := by
  unfold decodeOptional? at h
  split at h
  · cases h
  · cases h
  · next value hvalue =>
    obtain ⟨decoded, hdecoded, heq⟩ := Option.map_eq_some_iff.1 h
    exact ⟨value, hvalue, Option.some.inj heq ▸ hdecoded⟩

/-- An optional number is finite if it is there. -/
theorem isFinite_of_decodeOptional? {part : Option Json} {result : Option Binary64}
    (h : decodeOptional? decodeNumber? part = some result) :
    ∀ number ∈ result, number.isFinite = true := by
  rintro number rfl
  obtain ⟨value, -, hvalue⟩ := exists_of_decodeOptional? h
  exact isFinite_of_decodeNumber? hvalue

/-- An optional part that is `null` is not there. -/
theorem ne_null_of_decodeOptional? {part result : Option Json}
    (h : decodeOptional? some part = some result) : result ≠ some .null := by
  rintro rfl
  obtain ⟨value, hvalue, heq⟩ := exists_of_decodeOptional? h
  exact hvalue (Option.some.inj heq)

/-- Points are decoded with finite coordinates. -/
theorem Point.isCanonical_ofJson? {value : Json} {point : Point}
    (h : Point.ofJson? value = some point) : point.IsCanonical := by
  obtain ⟨part, -, hx, hy, hr⟩ := Point.ofJson?_eq_some_iff.1 h
  obtain ⟨x, -, hx⟩ := Option.bind_eq_some_iff.1 hx
  obtain ⟨y, -, hy⟩ := Option.bind_eq_some_iff.1 hy
  exact ⟨isFinite_of_decodeNumber? hx, isFinite_of_decodeNumber? hy,
    isFinite_of_decodeOptional? hr⟩

/-- What is no gap is a finite number. -/
theorem isFinite_of_decodeGap? {item : Json} {gap : Option Binary64}
    (h : decodeGap? item = some gap) : ∀ number ∈ gap, number.isFinite = true := by
  rintro number rfl
  rcases decodeGap?_cases h with rfl | ⟨held, rfl⟩
  · exact nomatch Option.some.inj h
  · obtain rfl := Option.some.inj (Option.some.inj h)
    exact held.isFinite_toBinary64

/-- Data are decoded as finite numbers or as points of which there is one at least. -/
theorem DataPoints.isCanonical_ofJson? {value : Json} {data : DataPoints}
    (h : DataPoints.ofJson? value = some data) : data.IsCanonical := by
  obtain ⟨items, -, ⟨gaps, rfl, hitems⟩ | ⟨hne, points, rfl, hitems⟩⟩ := DataPoints.ofJson?_cases h
  · exact forall_mem_of_forall₂ hitems.flip fun _ _ => isFinite_of_decodeGap?
  · refine ⟨?_, forall_mem_of_forall₂ hitems.flip fun _ _ => Point.isCanonical_ofJson?⟩
    rintro rfl
    exact hne (List.forall₂_nil_right_iff.1 hitems)

/-- Mending keeps the fields in order. -/
theorem ordered_lossyFields {fields : Fields Json} (h : Fields.Ordered fields) :
    Fields.Ordered (lossyFields fields) := by
  rw [lossyFields_eq_modify]
  exact (h.modify "label" _).modify "data" _

/-- What is decoded from ordered fields is canonical. -/
theorem Dataset.isCanonical_ofFields? {fields : Fields Json} (hordered : Fields.Ordered fields)
    {dataset : Dataset} (h : Dataset.ofFields? fields = some dataset) : dataset.IsCanonical := by
  obtain ⟨-, -, hdata, hbackground, hborder, hwidth, hextra⟩ := Dataset.ofFields?_eq_some_iff.1 h
  refine ⟨?_, ne_null_of_decodeOptional? hbackground, ne_null_of_decodeOptional? hborder,
    isFinite_of_decodeOptional? hwidth, hextra ▸ hordered.filter _, fun name hname => ?_⟩
  · cases hget : Fields.get? "data" fields with
    | none =>
      rw [hget] at hdata
      obtain heq := Option.some.inj hdata
      rw [← heq]
      exact fun item hitem => absurd hitem List.not_mem_nil
    | some value =>
      rw [hget] at hdata
      exact DataPoints.isCanonical_ofJson? hdata
  · rw [← hextra, Fields.get?_filter (fun name => name ∉ Dataset.fieldNames)]
    simp [hname]

/-- **What lossy decoding gives is canonical.** -/
theorem ChartResponse.isCanonical_ofJsonLossy {payload : Json} (hordered : payload.Ordered) :
    (ChartResponse.ofJsonLossy payload).IsCanonical := by
  intro dataset hdataset
  cases payload with
  | object fields =>
    obtain ⟨item, hitem, hread⟩ := List.mem_filterMap.1 hdataset
    have hitemOrdered := hordered.of_mem_datasetItems hitem
    obtain ⟨own, hown, hread⟩ := Option.bind_eq_some_iff.1 hread
    obtain rfl := Json.fields?_eq_some_iff.1 hown
    exact Dataset.isCanonical_ofFields? (ordered_lossyFields hitemOrdered.fields) hread
  | null | bool | number | string | array => exact absurd hdataset List.not_mem_nil

/-! ### Canonical responses are read back -/

/-- A list is read back item by item. -/
theorem decodeItems?_map {α : Type} {decode : Json → Option α} {write : α → Json} {items : List α}
    (h : ∀ item ∈ items, decode (write item) = some item) :
    decodeItems? decode (.array (items.map write)) = some items :=
  decodeItems?_eq_some_iff.2
    ⟨_, rfl, List.forall₂_map_left_iff.2 (List.forall₂_same.2 h)⟩

/-- An optional part is read back if it is not written as `null`. -/
theorem decodeOptional?_map {α : Type} {decode : Json → Option α} {write : α → Json}
    {value : Option α} (h : ∀ held ∈ value, write held ≠ .null ∧ decode (write held) = some held) :
    decodeOptional? decode (value.map write) = some value := by
  cases value with
  | none => rfl
  | some held =>
    obtain ⟨hne, hdecode⟩ := h held rfl
    rw [Option.map_some, decodeOptional?, hdecode]
    · rfl
    · exact hne

/-- A finite number is written as itself. -/
theorem Json.ofBinary64_of_finite {value : Binary64} (h : value.isFinite = true) :
    Json.ofBinary64 value = .number (.real value h) :=
  dif_pos h

theorem decodeNumber?_ofBinary64 {value : Binary64} (h : value.isFinite = true) :
    Json.ofBinary64 value ≠ .null ∧ decodeNumber? (Json.ofBinary64 value) = some value := by
  rw [Json.ofBinary64_of_finite h]
  exact ⟨by rintro ⟨⟩, rfl⟩

/-- A point is read back. -/
theorem Point.ofJson?_toJson {point : Point} (h : point.IsCanonical) :
    Point.ofJson? point.toJson = some point := by
  obtain ⟨hx, hy, hr⟩ := h
  refine Point.ofJson?_eq_some_iff.2 ⟨_, rfl, ?_, ?_, ?_⟩
  · simp [(decodeNumber?_ofBinary64 hx).2]
  · simp [(decodeNumber?_ofBinary64 hy).2]
  · simpa using decodeOptional?_map fun r hheld => decodeNumber?_ofBinary64 (hr r hheld)

/-- Written points are objects, so that they are not taken for numbers. -/
theorem DataPoints.ofJson?_toJson {data : DataPoints} (h : data.IsCanonical) :
    DataPoints.ofJson? data.toJson = some data := by
  cases data with
  | numbers items =>
    have hitems : decodeItems? decodeGap? (DataPoints.toJson (.numbers items)) = some items := by
      refine decodeItems?_map fun item hitem => ?_
      cases item with
      | none => rfl
      | some value =>
        rw [Option.map_some, Option.getD_some, Json.ofBinary64_of_finite (h _ hitem _ rfl)]
        rfl
    rw [ofJson?, hitems]
  | points items =>
    obtain ⟨hne, hitems⟩ := h
    have hnumbers : decodeItems? decodeGap? (DataPoints.toJson (.points items)) = none := by
      obtain ⟨point, rest, rfl⟩ := List.exists_cons_of_ne_nil hne
      rfl
    have hpoints : decodeItems? Point.ofJson? (DataPoints.toJson (.points items)) = some items :=
      decodeItems?_map fun item hitem => Point.ofJson?_toJson (hitems item hitem)
    rw [ofJson?, hnumbers, hpoints]
    rfl

/-- The information about a response is read back, whatever it is. -/
theorem ResponseMeta.ofJson?_toJson (info : ResponseMeta) :
    ResponseMeta.ofJson? info.toJson = some info := by
  have htext (text : Option String) :
      decodeOptional? Json.string? (text.map Json.string) = some text :=
    decodeOptional?_map fun _ _ => ⟨by rintro ⟨⟩, rfl⟩
  obtain ⟨title, generatedAt, cacheControl⟩ := info
  simp [ofJson?, toJson, recordParts?, htext]

/-- The written form of a dataset without its extra fields. -/
def Dataset.ownPairs (dataset : Dataset) : List (String × Json) :=
  Json.optionalField "id" (dataset.id.map Json.string) ++
    [("label", .string dataset.label), ("data", dataset.data.toJson)] ++
    Json.optionalField "backgroundColor" dataset.backgroundColor ++
    Json.optionalField "borderColor" dataset.borderColor ++
    Json.optionalField "borderWidth" (dataset.borderWidth.map Json.ofBinary64)

/-- The fields that a dataset is written with. -/
def Dataset.written (dataset : Dataset) : Fields Json :=
  Fields.ofList (dataset.ownPairs ++ dataset.extra)

/-- A written dataset has its own parts under its own names, and its extra fields under all others.
-/
theorem Dataset.get?_written {dataset : Dataset} (h : dataset.IsCanonical) (name : String) :
    Fields.get? name dataset.written = if name ∈ Dataset.fieldNames
      then Fields.get? name (Fields.ofList dataset.ownPairs)
      else Fields.get? name dataset.extra := by
  rw [written, Fields.get?_ofList_append, h.ordered.ofList_eq]
  split
  · next hname => rw [h.extra name hname, Option.none_or]
  · next hname =>
    have hnone : Fields.get? name (Fields.ofList dataset.ownPairs) = none := by
      simp only [fieldNames, List.mem_cons, List.not_mem_nil, or_false, not_or] at hname
      simp [ownPairs, Ne.symm hname.1, Ne.symm hname.2.1, Ne.symm hname.2.2.1,
        Ne.symm hname.2.2.2.1, Ne.symm hname.2.2.2.2.1, Ne.symm hname.2.2.2.2.2]
    rw [hnone, Option.or_none]

/-- The extra fields are told apart from a dataset's own. -/
theorem Dataset.extra_written {dataset : Dataset} (h : dataset.IsCanonical) :
    (dataset.written.filter fun field => field.1 ∉ Dataset.fieldNames) = dataset.extra := by
  have hordered : Fields.Ordered dataset.written := Fields.ordered_ofList _
  refine (hordered.filter _).ext h.ordered fun name => ?_
  rw [Fields.get?_filter (fun name => name ∉ Dataset.fieldNames), get?_written h]
  by_cases hname : name ∈ fieldNames
  · simp [hname, h.extra name hname]
  · simp [hname]

/-- A dataset is read back. -/
theorem Dataset.ofFields?_written {dataset : Dataset} (h : dataset.IsCanonical) :
    Dataset.ofFields? dataset.written = some dataset := by
  have hget {name : String} (hname : name ∈ Dataset.fieldNames) :
      Fields.get? name dataset.written = Fields.get? name (Fields.ofList dataset.ownPairs) :=
    (get?_written h name).trans (if_pos hname)
  have hid : decodeOptional? Json.string? (dataset.id.map Json.string) = some dataset.id :=
    decodeOptional?_map fun _ _ => ⟨by rintro ⟨⟩, rfl⟩
  have hcolor {color : Option Json} (hne : color ≠ some .null) :
      decodeOptional? some color = some color := by
    unfold decodeOptional?
    split
    · rfl
    · exact absurd rfl hne
    · rfl
  refine Dataset.ofFields?_eq_some_iff.2 ⟨?_, ?_, ?_, ?_, ?_, ?_, extra_written h⟩
  · rw [hget (by decide)]
    simpa [ownPairs] using hid
  · rw [hget (by decide)]
    simp [ownPairs, decodeOr?, Json.string?]
  · rw [hget (by decide)]
    simpa [ownPairs, decodeOr?] using DataPoints.ofJson?_toJson h.data
  · rw [hget (by decide)]
    simpa [ownPairs] using hcolor h.backgroundColor
  · rw [hget (by decide)]
    simpa [ownPairs] using hcolor h.borderColor
  · rw [hget (by decide)]
    simpa [ownPairs] using decodeOptional?_map fun width hwidth =>
      decodeNumber?_ofBinary64 (h.borderWidth width hwidth)

theorem Dataset.get?_label_toJson {dataset : Dataset} (h : dataset.IsCanonical) :
    dataset.toJson.get? "label" = some (.string dataset.label) :=
  (get?_written h "label").trans (by simp [fieldNames, ownPairs])

theorem Dataset.get?_data_toJson {dataset : Dataset} (h : dataset.IsCanonical) :
    dataset.toJson.get? "data" = some dataset.data.toJson :=
  (get?_written h "data").trans (by simp [fieldNames, ownPairs])

/-- Data are written as a list. -/
theorem DataPoints.exists_items_toJson (data : DataPoints) :
    ∃ items, data.toJson = .array items := by
  cases data <;> exact ⟨_, rfl⟩

/-- Written data begin with a number, a gap or an object. -/
theorem DataPoints.listsPoints_toJson {data : DataPoints} (h : data.IsCanonical) :
    data.toJson.listsPoints = false := by
  cases data with
  | numbers items =>
    cases items with
    | nil => rfl
    | cons item rest =>
      cases item with
      | none => rfl
      | some value =>
        have hvalue := Json.ofBinary64_of_finite (h _ List.mem_cons_self value rfl)
        rw [toJson, List.map_cons, Option.map_some, Option.getD_some, hvalue]
        rfl
  | points items =>
    obtain ⟨point, rest, rfl⟩ := List.exists_cons_of_ne_nil h.1
    rfl

/-! ### Responses -/

/-- The fields that a response is written with. -/
def ChartResponse.written (response : ChartResponse) : Fields Json :=
  Fields.ofList
    ([("labels", .array (response.labels.map Json.string)),
        ("datasets", .array (response.datasets.map Dataset.toJson))] ++
      Json.optionalField "options" (response.options.map Json.object) ++
      Json.optionalField "meta" (response.info.map ResponseMeta.toJson))

theorem ChartResponse.get?_labels_written (response : ChartResponse) :
    Fields.get? "labels" response.written = some (.array (response.labels.map Json.string)) := by
  simp [written]

theorem ChartResponse.get?_datasets_written (response : ChartResponse) :
    Fields.get? "datasets" response.written =
      some (.array (response.datasets.map Dataset.toJson)) := by
  simp [written]

/-- The datasets of a response are written in order. -/
theorem ChartResponse.datasetItems_toJson (response : ChartResponse) :
    response.toJson.datasetItems = response.datasets.map Dataset.toJson := by
  change ((Fields.get? "datasets" response.written).bind Json.items?).getD [] = _
  rw [get?_datasets_written]
  rfl

/-- **Strict decoding reads a canonical response back.** -/
theorem ChartResponse.ofJson?_toJson {response : ChartResponse} (h : response.IsCanonical) :
    ChartResponse.ofJson? response.toJson = some response := by
  have hoptions : decodeOptional? Json.fields? (response.options.map Json.object) =
      some response.options := decodeOptional?_map fun _ _ => ⟨by rintro ⟨⟩, rfl⟩
  have hinfo : decodeOptional? ResponseMeta.ofJson? (response.info.map ResponseMeta.toJson) =
      some response.info :=
    decodeOptional?_map fun info _ => ⟨by rintro ⟨⟩, ResponseMeta.ofJson?_toJson info⟩
  refine ChartResponse.ofJson?_object_eq_some_iff.2 ⟨?_, ?_, ?_, ?_⟩
  · change decodeOr? _ _ (Fields.get? "labels" response.written) = _
    rw [get?_labels_written]
    exact decodeItems?_map fun _ _ => rfl
  · change decodeOr? _ _ (Fields.get? "datasets" response.written) = _
    rw [get?_datasets_written]
    exact decodeItems?_map fun dataset hdataset => Dataset.ofFields?_written (h dataset hdataset)
  · simpa using hoptions
  · simpa using hinfo

/-- **The checks find nothing in a canonical response.** -/
theorem validateResponse_toJson {response : ChartResponse} (h : response.IsCanonical) :
    validateResponse response.toJson = [] := by
  refine validateResponse_eq_nil_iff.2 ⟨_, _, response.get?_labels_written,
    response.get?_datasets_written, List.forall_mem_map.2 fun dataset hdataset => ?_⟩
  obtain ⟨items, hitems⟩ := dataset.data.exists_items_toJson
  exact ⟨⟨_, Dataset.get?_label_toJson (h dataset hdataset)⟩,
    ⟨items, hitems ▸ Dataset.get?_data_toJson (h dataset hdataset)⟩⟩

/-- **Lossy decoding reads a canonical response back.** Its points are written as objects, so that
none of them is listed. -/
theorem ofJsonLossy_toJson {response : ChartResponse} (h : response.IsCanonical) :
    ChartResponse.ofJsonLossy response.toJson = response := by
  have hstrict := ChartResponse.ofJson?_toJson h
  have hordered : ∀ item ∈ response.toJson.datasetItems, ∀ own, item = .object own →
      Fields.Ordered own := by
    rw [response.datasetItems_toJson]
    refine List.forall_mem_map.2 fun dataset _ own hown => ?_
    exact Json.object.inj hown ▸ Fields.ordered_ofList _
  have hlists : ∀ item ∈ response.toJson.datasetItems, item.hasListedPoints = false := by
    rw [response.datasetItems_toJson]
    refine List.forall_mem_map.2 fun dataset hdataset => ?_
    rw [Json.hasListedPoints, Dataset.get?_data_toJson (h dataset hdataset)]
    exact DataPoints.listsPoints_toJson (h dataset hdataset).data
  have hitems := forall₂_of_datasets (ChartResponse.ofJson?_object_eq_some_iff.1 hstrict).2.1
  have hsame := (zipWith_lossyOf_eq_iff hitems).2 hlists
  refine (ofJsonLossy_of_ofJson? hordered hstrict).trans ?_
  rw [hsame]

/-- **Lossy decoding is a projection onto canonical responses**: the checks find nothing in what it
gives, and decoding that once more changes nothing. -/
theorem ofJsonLossy_projects {payload : Json} (hordered : payload.Ordered) :
    validateResponse (ChartResponse.ofJsonLossy payload).toJson = [] ∧
      ChartResponse.ofJsonLossy (ChartResponse.ofJsonLossy payload).toJson =
        ChartResponse.ofJsonLossy payload := by
  have hcanonical := ChartResponse.isCanonical_ofJsonLossy hordered
  exact ⟨validateResponse_toJson hcanonical, ofJsonLossy_toJson hcanonical⟩

/-- A payload with texts for numbers, a label that is no text, a `null` for a colour, points of both
forms, and a dataset without a form. -/
theorem ofJsonLossy_projects_mended :
    let payload : Json := .object [
      ("datasets", .array [
        .object [("backgroundColor", .null), ("data", .array [.string " 2.5 ", .bool true]),
          ("label", .ofInt 7), ("tension", .null)],
        .object [("data", .array [.array [.ofInt 1, .ofInt 2],
          .object [("x", .ofInt 3), ("y", .ofInt 4)]])],
        .object [("id", .ofInt 1)]]),
      ("labels", .array [.null, .bool true]), ("meta", .array [])]
    payload.Ordered ∧ (ChartResponse.ofJsonLossy payload).datasets.length = 2 ∧
      validateResponse (ChartResponse.ofJsonLossy payload).toJson = [] ∧
      ChartResponse.ofJsonLossy (ChartResponse.ofJsonLossy payload).toJson =
        ChartResponse.ofJsonLossy payload := by
  intro payload
  have hordered : payload.Ordered := by decide +kernel
  exact ⟨hordered, by decide +kernel, ofJsonLossy_projects hordered⟩

end ChartSchema
