import ChartSchema.Proofs.Response.Agreement

/-!
# What lossy decoding loses

Lossy decoding gives a dataset for an item of a payload exactly if the item is **readable**
(`isSome_ofJsonLossy?`): an object whose `id` is a text and whose `borderWidth` is a number, if it
has them, and whose data, if there is an object among them, are all points. The checks of a payload
look at none of this, so a payload without findings may still lose datasets. What it cannot lose are
labels, the order of the datasets, and the label and the number of data of a dataset that is kept
(`ofJsonLossy_of_validateResponse`).

Being readable is a property of the JSON alone and says nothing of decoding (`Json.isReadable`). It
is compared with the decoding of a dataset part by part. The label is mended before it is read, so
that nothing is asked of it. The data are mended too: of a list without an object numbers and gaps
are made, whatever is in it (`isSome_ofJson?_map_lossyNumber`), but a list with an object is left as
it is and has to be a list of points (`isSome_ofJson?_of_object`). Of the colours nothing is asked
(`Dataset.isSome_ofFields?_iff`), and the remaining two parts are read as they stand.

The datasets that are kept stand in the order of their items, with those left out that are not
readable. What was said of one dataset then holds for all of them, as a relation of two lists
(`forall₂_filterMap`): each shows the label of its item and has as many data as the item lists
(`Dataset.Shows`), since mending changes the items of a list but not their number
(`exists_items_lossyData`).
-/

namespace ChartSchema

/-! ### Readable items -/

namespace Json

/-- Whether a value is a point: an object with two coordinates and maybe a radius, or the list of
them. -/
def isPoint : Json → Bool
  | .object fields =>
    (Fields.get? "x" fields).any isNumber && (Fields.get? "y" fields).any isNumber &&
      isAbsentOr isNumber (Fields.get? "r" fields)
  | .array [x, y] => x.isNumber && y.isNumber
  | .array [x, y, r] => x.isNumber && y.isNumber && isAbsentOr isNumber (some r)
  | _ => false

/-- Whether the items of data are points if one of them is an object. -/
def pointsFit (items : List Json) : Bool :=
  !items.any isObject || items.all isPoint

/-- Whether lossy decoding makes a dataset of an item. -/
def isReadable (item : Json) : Bool :=
  item.isObject && isAbsentOr isText (item.get? "id") &&
    isAbsentOr isNumber (item.get? "borderWidth") &&
    pointsFit (((item.get? "data").bind items?).getD [])

end Json

/-! ### Decoding that succeeds -/

/-- A part is read as a number exactly if it is there and is one. -/
theorem isSome_bind_decodeNumber? (part : Option Json) :
    (part.bind decodeNumber?).isSome = part.any Json.isNumber := by
  cases part with
  | none => rfl
  | some value => exact isSome_decodeNumber? value

/-- The point of a record is read from its coordinates. -/
theorem Point.isSome_ofJson?_of_parts (value : Json) {part : String → Option Json}
    (h : recordParts? ["x", "y", "r"] value = some part) :
    (Point.ofJson? value).isSome = ((part "x").any Json.isNumber && (part "y").any Json.isNumber &&
      Json.isAbsentOr Json.isNumber (part "r")) := by
  rw [← isSome_bind_decodeNumber?, ← isSome_bind_decodeNumber?,
    ← isSome_decodeOptional? isSome_decodeNumber?, ofJson?, h]
  simp only [Option.bind_eq_bind, Option.bind_some]
  cases (part "x").bind decodeNumber? with
  | none => rfl
  | some x =>
    cases (part "y").bind decodeNumber? with
    | none => rfl
    | some y => cases decodeOptional? decodeNumber? (part "r") <;> rfl

/-- A point is read exactly from what is a point. -/
theorem Point.isSome_ofJson? (value : Json) : (Point.ofJson? value).isSome = value.isPoint := by
  cases value with
  | object fields => exact isSome_ofJson?_of_parts (.object fields) rfl
  | array items =>
    -- the items are the parts in order, so that a part is missing behind the last of them
    match items with
    | [] => rfl
    | [x] =>
      refine (isSome_ofJson?_of_parts (.array [x]) rfl).trans ?_
      exact congrArg (· && true) (Bool.and_false _)
    | [x, y] => exact (isSome_ofJson?_of_parts (.array [x, y]) rfl).trans (Bool.and_true _)
    | [x, y, r] => exact isSome_ofJson?_of_parts (.array [x, y, r]) rfl
    | x :: y :: r :: other :: rest =>
      rw [ofJson?, recordParts?, if_neg (by simp)]
      rfl
  | null | bool | number | string => rfl

/-! ### Mended data -/

/-- A list is mended item by item. -/
theorem exists_items_lossyData (items : List Json) :
    ∃ mended, lossyData (.array items) = .array mended ∧ mended.length = items.length := by
  rw [lossyData]
  split
  · exact ⟨items, rfl, rfl⟩
  · exact ⟨_, rfl, List.length_map lossyNumber⟩

/-- What was mended as a number is read as a number or a gap. -/
theorem isSome_decodeGap?_lossyNumber (item : Json) :
    (decodeGap? (lossyNumber item)).isSome = true := by
  cases item with
  | string text =>
    rw [lossyNumber]
    cases Binary64.ofText? (trimBlanks text.toList) with
    | none => rfl
    | some value =>
      rw [Option.map_some, Option.getD_some, Json.ofBinary64]
      split <;> rfl
  | null | bool | number | array | object => rfl

/-- Of a list without an object numbers and gaps are made. -/
theorem isSome_ofJson?_map_lossyNumber (items : List Json) :
    (DataPoints.ofJson? (.array (items.map lossyNumber))).isSome = true := by
  have hgaps : (decodeItems? decodeGap? (.array (items.map lossyNumber))).isSome = true := by
    rw [decodeItems?, isSome_mapM (fun _ => rfl), List.all_map]
    exact List.all_eq_true.2 fun item _ => isSome_decodeGap?_lossyNumber item
  obtain ⟨gaps, hgaps⟩ := Option.isSome_iff_exists.1 hgaps
  rw [DataPoints.ofJson?, hgaps]
  rfl

/-- An object among the items rules numbers out. -/
theorem isSome_ofJson?_of_object {items : List Json} (h : items.any Json.isObject = true) :
    (DataPoints.ofJson? (.array items)).isSome = items.all Json.isPoint := by
  have hgaps : decodeItems? decodeGap? (.array items) = none := by
    refine Option.not_isSome_iff_eq_none.1 fun hsome => ?_
    rw [decodeItems?, isSome_mapM (fun _ => rfl)] at hsome
    obtain ⟨item, hitem, hobject⟩ := List.any_eq_true.1 h
    obtain ⟨fields, rfl⟩ := Json.isObject_eq_true_iff.1 hobject
    exact Bool.false_ne_true (List.all_eq_true.1 hsome _ hitem)
  rw [DataPoints.ofJson?, hgaps]
  exact Option.isSome_map.trans (isSome_mapM Point.isSome_ofJson? items)

/-- Mended data are read exactly if the items fit. -/
theorem isSome_ofJson?_lossyData (value : Json) :
    (DataPoints.ofJson? (lossyData value)).isSome = Json.pointsFit (value.items?.getD []) := by
  cases value with
  | array items =>
    rw [Json.items?, Option.getD_some, lossyData, Json.pointsFit]
    by_cases h : items.any Json.isObject = true
    · rw [if_pos h, isSome_ofJson?_of_object h, h]
      rfl
    · rw [if_neg h, isSome_ofJson?_map_lossyNumber, Bool.eq_false_iff.2 h]
      rfl
  | null | bool | number | string | object => rfl

/-! ### Mended datasets -/

/-- Lossy decoding changes the label and the data of a dataset and nothing else. -/
theorem get?_lossyFields (key : String) (fields : Fields Json) :
    Fields.get? key (lossyFields fields) =
      if key = "data" then (Fields.get? "data" fields).map lossyData
      else if key = "label" then
        (Fields.get? "label" fields).map fun label => .string (labelText label)
      else Fields.get? key fields := by
  simp only [lossyFields_eq_modify, Fields.get?_modify, String.reduceEq, if_false]

theorem isSome_decodeOptional?_some (part : Option Json) :
    (decodeOptional? some part).isSome = true := by
  unfold decodeOptional?
  split <;> rfl

/-- A dataset is read if each of its parts is; its colours may be anything. -/
theorem Dataset.isSome_ofFields?_iff {fields : Fields Json} :
    (Dataset.ofFields? fields).isSome = true ↔
      (decodeOptional? Json.string? (Fields.get? "id" fields)).isSome = true ∧
      (decodeOr? "" Json.string? (Fields.get? "label" fields)).isSome = true ∧
      (decodeOr? (.numbers []) DataPoints.ofJson? (Fields.get? "data" fields)).isSome = true ∧
      (decodeOptional? decodeNumber? (Fields.get? "borderWidth" fields)).isSome = true := by
  simp only [Option.isSome_iff_exists, Dataset.ofFields?_eq_some_iff]
  constructor
  · rintro ⟨dataset, hid, hlabel, hdata, -, -, hwidth, -⟩
    exact ⟨⟨_, hid⟩, ⟨_, hlabel⟩, ⟨_, hdata⟩, ⟨_, hwidth⟩⟩
  -- the colours, of which nothing is asked, are whatever is there
  · rintro ⟨⟨id, hid⟩, ⟨label, hlabel⟩, ⟨data, hdata⟩, ⟨width, hwidth⟩⟩
    obtain ⟨background, hbackground⟩ := Option.isSome_iff_exists.1
      (isSome_decodeOptional?_some (Fields.get? "backgroundColor" fields))
    obtain ⟨border, hborder⟩ := Option.isSome_iff_exists.1
      (isSome_decodeOptional?_some (Fields.get? "borderColor" fields))
    exact ⟨⟨id, label, data, background, border, width, _⟩, hid, hlabel, hdata, hbackground,
      hborder, hwidth, rfl⟩

/-- **Lossy decoding makes a dataset of an item exactly if the item is readable.** -/
theorem isSome_ofJsonLossy? (item : Json) :
    (Dataset.ofJsonLossy? item).isSome = item.isReadable := by
  cases item with
  | object fields =>
    -- the label is a text by now, and the data fit as the items do
    have hlabel : (decodeOr? "" Json.string?
        ((Fields.get? "label" fields).map fun label => .string (labelText label))).isSome := by
      cases Fields.get? "label" fields <;> rfl
    have hdata : (decodeOr? (.numbers []) DataPoints.ofJson?
        ((Fields.get? "data" fields).map lossyData)).isSome =
          Json.pointsFit (((Fields.get? "data" fields).bind Json.items?).getD []) := by
      cases Fields.get? "data" fields with
      | none => rfl
      | some value => exact isSome_ofJson?_lossyData value
    rw [Bool.eq_iff_iff, Dataset.ofJsonLossy?, Json.fields?, Option.bind_some,
      Dataset.isSome_ofFields?_iff]
    simp only [get?_lossyFields, String.reduceEq, if_true, if_false, hlabel, hdata,
      isSome_decodeOptional? isSome_string?, isSome_decodeOptional? isSome_decodeNumber?,
      Json.isReadable, Json.isObject, Json.get?, Json.fields?, Option.bind_some, Bool.true_and,
      true_and, Bool.and_eq_true, and_assoc]
    exact and_congr_right fun _ => and_comm
  | null | bool | number | string | array => rfl

/-! ### What is kept -/

/-- A dataset has the label of an item and as many data as the item lists. -/
def Dataset.Shows (dataset : Dataset) (item : Json) : Prop :=
  item.get? "label" = some (.string dataset.label) ∧
    ∃ values, item.get? "data" = some (.array values) ∧ dataset.data.length = values.length

theorem DataPoints.length_of_ofJson? {items : List Json} {data : DataPoints}
    (h : DataPoints.ofJson? (.array items) = some data) : data.length = items.length := by
  obtain ⟨read, heq, hread⟩ := DataPoints.ofJson?_cases h
  obtain rfl := Json.array.inj heq
  obtain ⟨gaps, rfl, hitems⟩ | ⟨-, points, rfl, hitems⟩ := hread
  · exact hitems.length_eq.symm
  · exact hitems.length_eq.symm

/-- A dataset without findings is shown if it is kept. -/
theorem Dataset.shows_of_ofJsonLossy? {item : Json} {label : String} {values : List Json}
    (hlabel : item.get? "label" = some (.string label))
    (hdata : item.get? "data" = some (.array values)) {dataset : Dataset}
    (h : Dataset.ofJsonLossy? item = some dataset) : dataset.Shows item := by
  obtain ⟨fields, hfields, hread⟩ := Option.bind_eq_some_iff.1 h
  obtain rfl := Json.fields?_eq_some_iff.1 hfields
  change Fields.get? "label" fields = _ at hlabel
  change Fields.get? "data" fields = _ at hdata
  obtain ⟨-, htext, hvalues, -⟩ := Dataset.ofFields?_eq_some_iff.1 hread
  obtain ⟨mended, hmended, hlength⟩ := exists_items_lossyData values
  rw [get?_lossyFields, if_neg (by decide), if_pos rfl, hlabel] at htext
  rw [get?_lossyFields, if_pos rfl, hdata, Option.map_some, hmended] at hvalues
  obtain rfl : label = dataset.label := Option.some.inj htext
  exact ⟨hlabel, values, hdata, (DataPoints.length_of_ofJson? hvalues).trans hlength⟩

/-- The results of a selection are related to the items that have one. -/
theorem forall₂_filterMap {α β : Type} {decode : α → Option β} {related : α → β → Prop}
    {items : List α}
    (h : ∀ item ∈ items, ∀ result, decode item = some result → related item result) :
    List.Forall₂ related (items.filter fun item => (decode item).isSome)
      (items.filterMap decode) := by
  induction items with
  | nil => exact .nil
  | cons item rest ih =>
    obtain ⟨hfirst, hrest⟩ := List.forall_mem_cons.1 h
    cases hdecode : decode item with
    | none =>
      rw [List.filter_cons_of_neg (by simp [hdecode]), List.filterMap_cons_none hdecode]
      exact ih hrest
    | some result =>
      rw [List.filter_cons_of_pos (by simp [hdecode]), List.filterMap_cons_some hdecode]
      exact .cons (hfirst result hdecode) (ih hrest)

/-- **A payload without findings** keeps every label, and in order the datasets of its readable
items, each with its label and as many data as it lists. It keeps all datasets exactly if all items
are readable. -/
theorem ofJsonLossy_of_validateResponse {payload : Json} (h : validateResponse payload = []) :
    ∃ labels items, payload.get? "labels" = some (.array labels) ∧
      payload.get? "datasets" = some (.array items) ∧
      (ChartResponse.ofJsonLossy payload).labels = labels.map labelText ∧
      List.Forall₂ (fun item dataset => Dataset.Shows dataset item) (items.filter Json.isReadable)
        (ChartResponse.ofJsonLossy payload).datasets ∧
      ((ChartResponse.ofJsonLossy payload).datasets.length = items.length ↔
        ∀ item ∈ items, item.isReadable = true) := by
  obtain ⟨labels, items, hlabels, hitems, hfine⟩ := validateResponse_eq_nil_iff.1 h
  obtain ⟨fields, hfields, -⟩ := Option.bind_eq_some_iff.1 hlabels
  obtain rfl := Json.fields?_eq_some_iff.1 hfields
  have hdatasets : (ChartResponse.ofJsonLossy (.object fields)).datasets =
      items.filterMap Dataset.ofJsonLossy? := by
    rw [ChartResponse.ofJsonLossy, show Fields.get? "datasets" fields = some (.array items) from
      hitems]
    rfl
  refine ⟨labels, items, hlabels, hitems, ?_, ?_, ?_⟩
  · rw [ChartResponse.ofJsonLossy, show Fields.get? "labels" fields = some (.array labels) from
      hlabels]
    rfl
  · rw [hdatasets, ← funext isSome_ofJsonLossy?]
    refine forall₂_filterMap fun item hitem dataset hread => ?_
    obtain ⟨⟨label, hlabel⟩, values, hvalues⟩ := hfine item hitem
    exact Dataset.shows_of_ofJsonLossy? hlabel hvalues hread
  · simp only [hdatasets, List.filterMap_length_eq_length, isSome_ofJsonLossy?]

/-- The first dataset is kept with a gap for what is no number, and the second is dropped for its
identifier. -/
theorem ofJsonLossy_of_validateResponse_dropped :
    let first : Json := .object [("data", .array [.ofInt 1, .bool true]), ("label", .string "a")]
    let second : Json := .object [("data", .array [.ofInt 1]), ("id", .ofInt 7),
      ("label", .string "b")]
    let payload : Json := .object [("datasets", .array [first, second]),
      ("labels", .array [.string "x", .ofInt 2])]
    validateResponse payload = [] ∧ (ChartResponse.ofJsonLossy payload).labels = ["x", "2"] ∧
      List.Forall₂ (fun item dataset => Dataset.Shows dataset item) [first]
        (ChartResponse.ofJsonLossy payload).datasets ∧
      (ChartResponse.ofJsonLossy payload).datasets.length ≠ 2 := by
  intro first second payload
  have hfine : validateResponse payload = [] := rfl
  obtain ⟨labels, items, hlabels, hitems, htexts, hshown, hall⟩ :=
    ofJsonLossy_of_validateResponse hfine
  obtain rfl : [.string "x", .ofInt 2] = labels := Json.array.inj (Option.some.inj hlabels)
  obtain rfl : [first, second] = items := Json.array.inj (Option.some.inj hitems)
  refine ⟨hfine, htexts.trans (by decide +kernel), hshown, fun hlength => ?_⟩
  exact absurd (hall.1 hlength second (by simp)) (by decide)

/-- A dataset whose border is as wide as a text says passes the checks and is dropped. -/
theorem exists_dataset_dropped :
    let payload : Json := .object [("datasets", .array [.object [("borderWidth", .string "2"),
      ("data", .array [.ofInt 1]), ("label", .string "a")]]), ("labels", .array [.string "x"])]
    validateResponse payload = [] ∧ (ChartResponse.ofJsonLossy payload).datasets.length = 0 :=
  ⟨rfl, rfl⟩

end ChartSchema
