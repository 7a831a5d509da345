import Mathlib.Data.List.Forall2
import ChartSchema.Response
import ChartSchema.Validation
import ChartSchema.Proofs.Fields.Lookup

/-!
# Decoding part by part

Strict decoding of a response succeeds or fails as a whole, so that from a result alone it is not
seen which part of a payload it came from. The statements here open the decoders once: a result is
there exactly if each part of the value has decoded to the part of the result at the same place.

* `decodeItems?_eq_some_iff` does this for lists, with `List.Forall₂` between the items and what
  they decode to; `mapM_eq_some_iff` is the induction behind it.
* `Dataset.ofFields?_eq_some_iff`, `Point.ofJson?_eq_some_iff` and
  `ChartResponse.ofJson?_object_eq_some_iff` do it for the records, one equation for each field. The
  other modules about responses rewrite with these and never open a decoder again.
* Whether a part decodes at all depends on its kind only: `isSome_decodeOptional?` and `isSome_mapM`
  reduce this to the tests `Json.isText`, `Json.isNumber` and `Json.isAbsentOr`, which compute.

Lossy decoding is strict decoding of changed fields, and `lossyFields_eq_modify` gives the change as
two independent modifications, which look-ups see through.

The checks of a payload are read in the same way: they find nothing exactly if a few parts are there
and of the right kind (`validateResponse_eq_nil_iff`).
-/

namespace ChartSchema

/-! ### Kinds of parts -/

namespace Json

/-- Whether a value is a text. -/
def isText : Json → Bool
  | .string _ => true
  | _ => false

/-- Whether a value is a number of any sort. -/
def isNumber : Json → Bool
  | .number _ => true
  | _ => false

/-- Whether a part is of a kind if it is there at all; `null` says that it is not. -/
def isAbsentOr (kind : Json → Bool) : Option Json → Bool
  | none => true
  | some .null => true
  | some value => kind value

/-- Only a text has a text. -/
theorem string?_eq_some_iff {value : Json} {text : String} :
    value.string? = some text ↔ value = .string text := by
  cases value <;> simp [string?]

/-- Only an array has items. -/
theorem items?_eq_some_iff {value : Json} {items : List Json} :
    value.items? = some items ↔ value = .array items := by
  cases value <;> simp [items?]

/-- Only an object has fields. -/
theorem fields?_eq_some_iff {value : Json} {fields : Fields Json} :
    value.fields? = some fields ↔ value = .object fields := by
  cases value <;> simp [fields?]

theorem isObject_eq_true_iff {value : Json} :
    value.isObject = true ↔ ∃ fields, value = .object fields := by
  cases value <;> simp [isObject]

end Json

/-- A number is decoded to its nearest binary64 value. -/
theorem decodeNumber?_eq_some_iff {value : Json} {number : Binary64} :
    decodeNumber? value = some number ↔
      ∃ held, value = .number held ∧ held.toBinary64 = number := by
  cases value <;> simp [decodeNumber?]

theorem isSome_string? (value : Json) : value.string?.isSome = value.isText := by
  cases value <;> rfl

theorem isSome_decodeNumber? (value : Json) : (decodeNumber? value).isSome = value.isNumber := by
  cases value <;> rfl

/-- An optional part decodes exactly if it is absent or of the kind that decodes. -/
theorem isSome_decodeOptional? {α : Type} {decode : Json → Option α} {kind : Json → Bool}
    (h : ∀ value, (decode value).isSome = kind value) (part : Option Json) :
    (decodeOptional? decode part).isSome = Json.isAbsentOr kind part := by
  cases part with
  | none => rfl
  | some value =>
    cases value with
    | null => rfl
    | bool | number | string | array | object => exact Option.isSome_map.trans (h _)

/-! ### Parts of records -/

/-- A list is decoded exactly if its items are, each to the result at its place. -/
theorem mapM_eq_some_iff {α β : Type} {decode : α → Option β} {items : List α} {results : List β} :
    items.mapM decode = some results ↔
      List.Forall₂ (fun item result => decode item = some result) items results := by
  induction items generalizing results with
  | nil => simp [eq_comm]
  | cons item rest ih =>
    rw [List.mapM_cons]
    simp only [Option.bind_eq_bind, Option.bind_eq_some_iff, Option.pure_def, Option.some.injEq]
    constructor
    · rintro ⟨first, hfirst, others, hothers, rfl⟩
      exact .cons hfirst (ih.1 hothers)
    · rintro (_ | ⟨hfirst, hothers⟩)
      exact ⟨_, hfirst, _, ih.2 hothers, rfl⟩

/-- A list is decoded at all exactly if every item is of the kind that decodes. -/
theorem isSome_mapM {α β : Type} {decode : α → Option β} {kind : α → Bool}
    (h : ∀ item, (decode item).isSome = kind item) (items : List α) :
    (items.mapM decode).isSome = items.all kind := by
  induction items with
  | nil => rfl
  | cons item rest ih =>
    rw [List.mapM_cons, List.all_cons, ← h, ← ih]
    cases decode item with
    | none => rfl
    | some first => cases rest.mapM decode <;> rfl

/-- What each related item has, all items have. -/
theorem forall_mem_of_forall₂ {α β : Type} {related : α → β → Prop} {holds : α → Prop}
    {items : List α} {results : List β} (h : List.Forall₂ related items results)
    (hholds : ∀ item result, related item result → holds item) : ∀ item ∈ items, holds item :=
  ((List.forall₂_and_left items results).1 (h.imp fun item result hrelated =>
    ⟨hholds item result hrelated, hrelated⟩)).1

/-- **A list is decoded item by item.** What is no list is not decoded. -/
theorem decodeItems?_eq_some_iff {α : Type} {decode : Json → Option α} {value : Json}
    {results : List α} : decodeItems? decode value = some results ↔
      ∃ items, value = .array items ∧
        List.Forall₂ (fun item result => decode item = some result) items results := by
  cases value with
  | array items => simp [decodeItems?, mapM_eq_some_iff]
  | null | bool | number | string | object => simp [decodeItems?]

/-- A dataset is read from its fields part by part. -/
theorem Dataset.ofFields?_eq_some_iff {fields : Fields Json} {dataset : Dataset} :
    Dataset.ofFields? fields = some dataset ↔
      decodeOptional? Json.string? (Fields.get? "id" fields) = some dataset.id ∧
      decodeOr? "" Json.string? (Fields.get? "label" fields) = some dataset.label ∧
      decodeOr? (.numbers []) DataPoints.ofJson? (Fields.get? "data" fields) =
        some dataset.data ∧
      decodeOptional? some (Fields.get? "backgroundColor" fields) =
        some dataset.backgroundColor ∧
      decodeOptional? some (Fields.get? "borderColor" fields) = some dataset.borderColor ∧
      decodeOptional? decodeNumber? (Fields.get? "borderWidth" fields) =
        some dataset.borderWidth ∧
      (fields.filter fun field => field.1 ∉ Dataset.fieldNames) = dataset.extra := by
  simp only [ofFields?, Option.bind_eq_bind, Option.bind_eq_some_iff, Option.some.injEq]
  constructor
  · rintro ⟨id, hid, label, hlabel, data, hdata, background, hbackground, border, hborder, width,
      hwidth, rfl⟩
    exact ⟨hid, hlabel, hdata, hbackground, hborder, hwidth, rfl⟩
  · rintro ⟨hid, hlabel, hdata, hbackground, hborder, hwidth, hextra⟩
    exact ⟨_, hid, _, hlabel, _, hdata, _, hbackground, _, hborder, _, hwidth, hextra ▸ rfl⟩

/-- A point is read from its parts; the two coordinates have to be there, the radius need not. -/
theorem Point.ofJson?_eq_some_iff {value : Json} {point : Point} :
    Point.ofJson? value = some point ↔ ∃ part, recordParts? ["x", "y", "r"] value = some part ∧
      (part "x").bind decodeNumber? = some point.x ∧
      (part "y").bind decodeNumber? = some point.y ∧
      decodeOptional? decodeNumber? (part "r") = some point.r := by
  simp only [ofJson?, Option.bind_eq_bind, Option.bind_eq_some_iff, Option.some.injEq]
  constructor
  · rintro ⟨part, hpart, x, hx, y, hy, r, hr, rfl⟩
    exact ⟨part, hpart, hx, hy, hr⟩
  · rintro ⟨part, hpart, hx, hy, hr⟩
    exact ⟨part, hpart, _, hx, _, hy, _, hr, rfl⟩

/-- The response of an object is read part by part. -/
theorem ChartResponse.ofJson?_object_eq_some_iff {fields : Fields Json} {response : ChartResponse} :
    ChartResponse.ofJson? (.object fields) = some response ↔
      decodeOr? [] (decodeItems? Json.string?) (Fields.get? "labels" fields) =
        some response.labels ∧
      decodeOr? [] (decodeItems? Dataset.ofJson?) (Fields.get? "datasets" fields) =
        some response.datasets ∧
      decodeOptional? Json.fields? (Fields.get? "options" fields) = some response.options ∧
      decodeOptional? ResponseMeta.ofJson? (Fields.get? "meta" fields) = some response.info := by
  simp only [ofJson?, recordParts?, Option.bind_eq_bind, Option.bind_some, Option.bind_eq_some_iff,
    Option.some.injEq]
  constructor
  · rintro ⟨labels, hlabels, datasets, hdatasets, options, hoptions, info, hinfo, rfl⟩
    exact ⟨hlabels, hdatasets, hoptions, hinfo⟩
  · rintro ⟨hlabels, hdatasets, hoptions, hinfo⟩
    exact ⟨_, hlabels, _, hdatasets, _, hoptions, _, hinfo, rfl⟩

/-- Lossy decoding changes the label and the data of a dataset. -/
theorem lossyFields_eq_modify (fields : Fields Json) :
    lossyFields fields = Fields.modify "data" lossyData
      (Fields.modify "label" (fun label => .string (labelText label)) fields) := by
  rw [lossyFields, Fields.modify, Fields.modify]
  cases Fields.get? "label" fields <;> cases hdata : Fields.get? "data" _ <;>
    simp only [hdata, Option.elim_some, Option.elim_none]

/-! ### Checked payloads -/

/-- A single check finds nothing exactly if its condition holds. -/
theorem requireThat_eq_nil_iff {condition : Bool} {path message : String} :
    requireThat condition path message = [] ↔ condition = true := by
  cases condition <;> simp [requireThat]

/-- A part is there and a list. -/
theorem items?_isSome_iff {part : Option Json} :
    (part.bind Json.items?).isSome = true ↔ ∃ items, part = some (.array items) := by
  simp [Option.isSome_iff_exists, Option.bind_eq_some_iff, Json.items?_eq_some_iff]

/-- A part is there and a text. -/
theorem string?_isSome_iff {part : Option Json} :
    (part.bind Json.string?).isSome = true ↔ ∃ text, part = some (.string text) := by
  simp [Option.isSome_iff_exists, Option.bind_eq_some_iff, Json.string?_eq_some_iff]

/-- Nothing is found in a dataset exactly if its label is a text and its data are a list. -/
theorem datasetIssues_eq_nil_iff {position : Nat} {dataset : Json} :
    datasetIssues position dataset = [] ↔
      (∃ label, dataset.get? "label" = some (.string label)) ∧
        ∃ items, dataset.get? "data" = some (.array items) := by
  rw [datasetIssues, List.append_eq_nil_iff, requireThat_eq_nil_iff, requireThat_eq_nil_iff,
    string?_isSome_iff, items?_isSome_iff]

/-- Nothing is found in a list exactly if nothing is found in any item, wherever it stands. -/
theorem flatten_mapIdx_eq_nil_iff {α β : Type} {found : Nat → α → List β} {items : List α}
    {fine : α → Prop} (hfine : ∀ position item, found position item = [] ↔ fine item) :
    (items.mapIdx found).flatten = [] ↔ ∀ item ∈ items, fine item := by
  simp only [List.flatten_eq_nil_iff, List.mem_mapIdx]
  constructor
  · intro h item hitem
    obtain ⟨position, hposition, rfl⟩ := List.mem_iff_getElem.1 hitem
    exact (hfine position _).1 (h _ ⟨position, hposition, rfl⟩)
  · rintro h _ ⟨position, hposition, rfl⟩
    exact (hfine position _).2 (h _ (List.getElem_mem hposition))

/-- **A payload is found to be without fault** exactly if it has lists of labels and of datasets,
and every dataset has a text as its label and a list of data. -/
theorem validateResponse_eq_nil_iff {payload : Json} :
    validateResponse payload = [] ↔ ∃ labels datasets,
      payload.get? "labels" = some (.array labels) ∧
      payload.get? "datasets" = some (.array datasets) ∧
      ∀ dataset ∈ datasets, (∃ label, dataset.get? "label" = some (.string label)) ∧
        ∃ items, dataset.get? "data" = some (.array items) := by
  cases payload with
  | object fields =>
    rw [validateResponse, List.append_eq_nil_iff, requireThat_eq_nil_iff, items?_isSome_iff]
    simp only [Json.get?, Json.fields?, Option.bind_some, exists_and_left, exists_and_right]
    refine and_congr_right fun _ => ?_
    cases hdatasets : (Fields.get? "datasets" fields).bind Json.items? with
    | none =>
      have hno : ∀ datasets, Fields.get? "datasets" fields ≠ some (.array datasets) := by
        intro datasets heq
        rw [heq] at hdatasets
        exact Option.some_ne_none datasets hdatasets
      simp [hno]
    | some items =>
      obtain ⟨value, hvalue, hitems⟩ := Option.bind_eq_some_iff.1 hdatasets
      obtain rfl := Json.items?_eq_some_iff.1 hitems
      simp only [hvalue, Option.some.injEq, Json.array.injEq, exists_eq_left']
      exact flatten_mapIdx_eq_nil_iff fun _ _ => datasetIssues_eq_nil_iff
  | null | bool | number | string | array => simp [validateResponse, Json.get?, Json.fields?]

end ChartSchema
