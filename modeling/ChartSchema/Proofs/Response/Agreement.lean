import ChartSchema.Proofs.Response.Decoding

/-!
# Lossy and strict decoding

Where strict decoding succeeds, lossy decoding has nothing to mend, and it should give the same
response. It does for every payload but those in which all points of a dataset are **listed**, each
as the list of its coordinates (`Json.listsPoints`): strict decoding reads such data as points, but
lossy decoding takes data for points only if an object is among them, and makes a gap of each list.
This is the only difference (`ofJsonLossy_of_ofJson?`), hence the two agree exactly if no dataset
lists its points (`ofJsonLossy_eq_iff`).

The proof follows a payload from its parts to the whole. Data that conform are the items of a list,
all of them numbers and gaps or all of them points (`DataPoints.ofJson?_cases`). Numbers and gaps
are kept as they are; points are kept if one of them is an object, and otherwise as many gaps are
left as there were points (`lossyData_of_ofJson?`).

A dataset has a text for its label already, so that mending changes nothing but the data, and its
extra fields are the same before and after (`ofFields?_lossyFields`). What comes of it is the
dataset itself or the dataset with gaps (`Dataset.lossyOf`), and these two are different, since
points are never gaps (`Dataset.lossyOf_eq_iff`).

Over a response the datasets are compared one by one with the items that they were read from
(`forall₂_of_datasets`), and the labels, options and information are decoded in the same way. The
fields of an object are assumed to be in order, as those of every JSON text that is read are.
-/

namespace ChartSchema

/-! ### Data -/

/-- Data in which every item is a list, so that they can only be listed points. -/
def Json.listsPoints (data : Json) : Bool :=
  data.items?.any fun items => !items.isEmpty && items.all fun item => item.items?.isSome

theorem decodeGap?_cases {item : Json} {gap : Option Binary64} (h : decodeGap? item = some gap) :
    item = .null ∨ ∃ number, item = .number number := by
  cases item with
  | null => exact .inl rfl
  | number number => exact .inr ⟨number, rfl⟩
  | bool | string | array | object => exact nomatch h

/-- A point is written as an object or as a list. -/
theorem Point.ofJson?_kind {item : Json} {point : Point} (h : Point.ofJson? item = some point) :
    item.isObject = true ∨ item.items?.isSome = true := by
  cases item with
  | object fields => exact .inl rfl
  | array coordinates => exact .inr rfl
  | null | bool | number | string => exact nomatch h

/-- Data are the items of a list, which are numbers and gaps or else points. -/
theorem DataPoints.ofJson?_cases {value : Json} {data : DataPoints}
    (h : DataPoints.ofJson? value = some data) : ∃ items, value = .array items ∧
      ((∃ gaps, data = .numbers gaps ∧
          List.Forall₂ (fun item gap => decodeGap? item = some gap) items gaps) ∨
        items ≠ [] ∧ ∃ points, data = .points points ∧
          List.Forall₂ (fun item point => Point.ofJson? item = some point) items points) := by
  rw [ofJson?] at h
  cases hgaps : decodeItems? decodeGap? value with
  | some gaps =>
    obtain ⟨items, rfl, hitems⟩ := decodeItems?_eq_some_iff.1 hgaps
    rw [hgaps] at h
    exact ⟨items, rfl, .inl ⟨gaps, (Option.some.inj h).symm, hitems⟩⟩
  | none =>
    rw [hgaps] at h
    obtain ⟨points, hpoints, rfl⟩ := Option.map_eq_some_iff.1 h
    obtain ⟨items, rfl, hitems⟩ := decodeItems?_eq_some_iff.1 hpoints
    refine ⟨items, rfl, .inr ⟨?_, points, rfl, hitems⟩⟩
    rintro rfl
    exact nomatch hgaps

/-- Numbers and gaps are kept as they are. -/
theorem lossyData_of_gaps {items : List Json}
    (h : ∀ item ∈ items, item = .null ∨ ∃ number, item = .number number) :
    lossyData (.array items) = .array items ∧ (Json.array items).listsPoints = false := by
  have hobject : items.any Json.isObject = false := by
    refine List.any_eq_false.2 fun item hitem => ?_
    rcases h item hitem with rfl | ⟨number, rfl⟩ <;> exact Bool.false_ne_true
  have hfixed : items.map lossyNumber = items := by
    refine (List.map_congr_left fun item hitem => ?_).trans (List.map_id items)
    rcases h item hitem with rfl | ⟨number, rfl⟩ <;> rfl
  constructor
  · rw [lossyData, hobject, if_neg Bool.false_ne_true, hfixed]
  · cases items with
    | nil => rfl
    | cons item rest => rcases h item List.mem_cons_self with rfl | ⟨number, rfl⟩ <;> rfl

/-- Points are kept as they are if one of them is an object; of listed points gaps are left. -/
theorem lossyData_of_points {items : List Json} (hne : items ≠ [])
    (h : ∀ item ∈ items, item.isObject = true ∨ item.items?.isSome = true) :
    lossyData (.array items) =
      if (Json.array items).listsPoints then .array (items.map fun _ => .null)
      else .array items := by
  rw [lossyData, Json.listsPoints, Json.items?, Option.any_some, List.isEmpty_eq_false_iff.2 hne,
    Bool.not_false, Bool.true_and]
  by_cases hobject : items.any Json.isObject = true
  · have hlists : (items.all fun item => item.items?.isSome) = false := by
      obtain ⟨item, hitem, hisObject⟩ := List.any_eq_true.1 hobject
      obtain ⟨fields, rfl⟩ := Json.isObject_eq_true_iff.1 hisObject
      exact List.all_eq_false.2 ⟨_, hitem, Bool.false_ne_true⟩
    rw [if_pos hobject, hlists, if_neg Bool.false_ne_true]
  · have hitems : ∀ item ∈ items, item.items?.isSome = true := fun item hitem =>
      (h item hitem).resolve_left fun hisObject =>
        hobject (List.any_eq_true.2 ⟨item, hitem, hisObject⟩)
    rw [if_neg hobject, if_pos (List.all_eq_true.2 hitems)]
    refine congrArg Json.array (List.map_congr_left fun item hitem => ?_)
    obtain ⟨coordinates, hlist⟩ := Option.isSome_iff_exists.1 (hitems item hitem)
    obtain rfl := Json.items?_eq_some_iff.1 hlist
    rfl

/-- What lossy decoding makes of data that conform. -/
theorem lossyData_of_ofJson? {value : Json} {data : DataPoints}
    (h : DataPoints.ofJson? value = some data) :
    lossyData value =
      if value.listsPoints then .array (List.replicate data.length .null) else value := by
  obtain ⟨items, rfl, ⟨gaps, rfl, hitems⟩ | ⟨hne, points, rfl, hitems⟩⟩ :=
    DataPoints.ofJson?_cases h
  · obtain ⟨hkept, hlists⟩ := lossyData_of_gaps
      (forall_mem_of_forall₂ hitems fun _ _ => decodeGap?_cases)
    rw [hkept, hlists, if_neg Bool.false_ne_true]
  · rw [lossyData_of_points hne (forall_mem_of_forall₂ hitems fun _ _ => Point.ofJson?_kind),
      List.map_const', hitems.length_eq]
    rfl

/-- Listed points are points. -/
theorem exists_points_of_listsPoints {value : Json} {data : DataPoints}
    (h : DataPoints.ofJson? value = some data) (hlists : value.listsPoints = true) :
    ∃ points, data = .points points := by
  obtain ⟨items, rfl, ⟨gaps, rfl, hitems⟩ | ⟨-, points, rfl, -⟩⟩ := DataPoints.ofJson?_cases h
  · obtain ⟨-, hnot⟩ := lossyData_of_gaps
      (forall_mem_of_forall₂ hitems fun _ _ => decodeGap?_cases)
    rw [hnot] at hlists
    exact nomatch hlists
  · exact ⟨points, rfl⟩

theorem ofJson?_gaps (count : Nat) :
    DataPoints.ofJson? (.array (List.replicate count .null)) =
      some (.numbers (List.replicate count none)) := by
  have hgaps : decodeItems? decodeGap? (.array (List.replicate count .null)) =
      some (List.replicate count none) := by
    refine decodeItems?_eq_some_iff.2 ⟨_, rfl, ?_⟩
    induction count with
    | zero => exact .nil
    | succ count ih => exact .cons rfl ih
  rw [DataPoints.ofJson?, hgaps]

/-! ### Datasets -/

/-- Whether the points of a dataset are listed. -/
def Json.hasListedPoints (dataset : Json) : Bool :=
  (dataset.get? "data").any Json.listsPoints

/-- The dataset with a gap for each of its data. -/
def Dataset.withGaps (dataset : Dataset) : Dataset :=
  { dataset with data := .numbers (List.replicate dataset.data.length none) }

/-- The label of a dataset that conforms is a text already. -/
theorem lossyFields_of_label {fields : Fields Json} (hordered : Fields.Ordered fields)
    {label : String} (h : decodeOr? "" Json.string? (Fields.get? "label" fields) = some label) :
    lossyFields fields = Fields.modify "data" lossyData fields := by
  rw [lossyFields_eq_modify]
  congr 1
  rw [Fields.modify]
  cases hget : Fields.get? "label" fields with
  | none => rfl
  | some value =>
    rw [hget] at h
    obtain rfl := Json.string?_eq_some_iff.1 h
    exact hordered.insert_of_get? hget

/-- Fields that are put under a name of their own are no extra fields. -/
theorem extra_insert {fields : Fields Json} (hordered : Fields.Ordered fields) {name : String}
    (hname : name ∈ Dataset.fieldNames) (value : Json) :
    ((Fields.insert name value fields).filter fun field => field.1 ∉ Dataset.fieldNames) =
      fields.filter fun field => field.1 ∉ Dataset.fieldNames := by
  refine ((hordered.insert name value).filter _).ext (hordered.filter _) fun key => ?_
  rw [Fields.get?_filter (fun name => name ∉ Dataset.fieldNames),
    Fields.get?_filter (fun name => name ∉ Dataset.fieldNames), Fields.get?_insert]
  by_cases hkey : key = name
  · simp [hkey, hname]
  · rw [if_neg hkey]

/-- Lossy decoding of a dataset that conforms changes nothing but listed points. -/
theorem ofFields?_lossyFields {fields : Fields Json} (hordered : Fields.Ordered fields)
    {dataset : Dataset} (h : Dataset.ofFields? fields = some dataset) :
    Dataset.ofFields? (lossyFields fields) =
      some (if (Json.object fields).hasListedPoints then dataset.withGaps else dataset) := by
  obtain ⟨hid, hlabel, hdata, hbackground, hborder, hwidth, hextra⟩ :=
    Dataset.ofFields?_eq_some_iff.1 h
  -- only the data can have changed
  rw [lossyFields_of_label hordered hlabel, Fields.modify, Json.hasListedPoints, Json.get?,
    Json.fields?, Option.bind_some]
  cases hget : Fields.get? "data" fields with
  | none => exact h
  | some data =>
    rw [hget, decodeOr?] at hdata
    rw [Option.any_some, Option.elim_some, lossyData_of_ofJson? hdata]
    by_cases hlists : data.listsPoints = true
    · rw [if_pos hlists, if_pos hlists]
      refine Dataset.ofFields?_eq_some_iff.2 ?_
      rw [Fields.get?_insert_self, extra_insert hordered (by decide)]
      simp only [Fields.get?_insert_of_ne, ne_eq, String.reduceEq, not_false_eq_true]
      exact ⟨hid, hlabel, ofJson?_gaps _, hbackground, hborder, hwidth, hextra⟩
    · rw [if_neg hlists, if_neg hlists, hordered.insert_of_get? hget]
      exact h

/-- What lossy decoding makes of a dataset that conforms. -/
def Dataset.lossyOf (item : Json) (dataset : Dataset) : Dataset :=
  if item.hasListedPoints then dataset.withGaps else dataset

/-- An item that conforms is decoded to its dataset, or to that with gaps. -/
theorem Dataset.ofJsonLossy?_of_ofJson? {item : Json}
    (hordered : ∀ fields, item = .object fields → Fields.Ordered fields) {dataset : Dataset}
    (h : Dataset.ofJson? item = some dataset) :
    Dataset.ofJsonLossy? item = some (Dataset.lossyOf item dataset) := by
  obtain ⟨fields, hfields, hread⟩ := Option.bind_eq_some_iff.1 h
  obtain rfl := Json.fields?_eq_some_iff.1 hfields
  exact ofFields?_lossyFields (hordered fields rfl) hread

/-- A dataset that conforms is changed exactly if its points are listed. -/
theorem Dataset.lossyOf_eq_iff {item : Json} {dataset : Dataset}
    (h : Dataset.ofJson? item = some dataset) :
    Dataset.lossyOf item dataset = dataset ↔ item.hasListedPoints = false := by
  rw [lossyOf, ← Bool.not_eq_true]
  constructor
  -- points do not become gaps of themselves
  · intro heq hlists
    rw [if_pos hlists] at heq
    obtain ⟨fields, hfields, hread⟩ := Option.bind_eq_some_iff.1 h
    obtain rfl := Json.fields?_eq_some_iff.1 hfields
    obtain ⟨data, hget, hlisted⟩ := (Option.any_eq_true _ _).1 hlists
    obtain ⟨-, -, hdata, -⟩ := Dataset.ofFields?_eq_some_iff.1 hread
    rw [show Fields.get? "data" fields = some data from hget, decodeOr?] at hdata
    obtain ⟨points, hpoints⟩ := exists_points_of_listsPoints hdata hlisted
    have hgaps := congrArg Dataset.data heq
    rw [hpoints] at hgaps
    exact nomatch hgaps
  · exact fun hlists => if_neg hlists

/-! ### Responses -/

/-- The items from which the datasets of a payload are read. -/
def Json.datasetItems (payload : Json) : List Json :=
  ((payload.get? "datasets").bind Json.items?).getD []

/-- Lossy decoding of optional parts drops what does not conform, and nothing else. -/
theorem bind_of_decodeOptional? {α : Type} {decode : Json → Option α} (hnull : decode .null = none)
    {part : Option Json} {result : Option α} (h : decodeOptional? decode part = some result) :
    part.bind decode = result := by
  cases part with
  | none => exact Option.some.inj h
  | some value =>
    cases value with
    | null => exact hnull.trans (Option.some.inj h)
    | bool | number | string | array | object =>
      obtain ⟨decoded, hdecoded, rfl⟩ := Option.map_eq_some_iff.1 h
      exact hdecoded

/-- Labels that conform are texts, which are kept. -/
theorem map_labelText_of_decodeOr? {part : Option Json} {labels : List String}
    (h : decodeOr? [] (decodeItems? Json.string?) part = some labels) :
    ((part.bind Json.items?).getD []).map labelText = labels := by
  cases part with
  | none => exact Option.some.inj h
  | some value =>
    obtain ⟨items, rfl, hitems⟩ := decodeItems?_eq_some_iff.1 h
    change items.map labelText = labels
    induction hitems with
    | nil => rfl
    | @cons item label items labels hlabel hitems ih =>
      obtain rfl := Json.string?_eq_some_iff.1 hlabel
      rw [List.map_cons, ih (decodeItems?_eq_some_iff.2 ⟨items, rfl, hitems⟩)]
      rfl

/-- The items of a payload that conforms are datasets. -/
theorem forall₂_of_datasets {fields : Fields Json} {datasets : List Dataset}
    (h : decodeOr? [] (decodeItems? Dataset.ofJson?) (Fields.get? "datasets" fields) =
      some datasets) :
    List.Forall₂ (fun item dataset => Dataset.ofJson? item = some dataset)
      (Json.object fields).datasetItems datasets := by
  rw [Json.datasetItems, Json.get?, Json.fields?, Option.bind_some]
  cases hget : Fields.get? "datasets" fields with
  | none =>
    rw [hget] at h
    exact Option.some.inj h ▸ .nil
  | some value =>
    rw [hget, decodeOr?] at h
    obtain ⟨items, rfl, hitems⟩ := decodeItems?_eq_some_iff.1 h
    exact hitems

/-- The datasets of an ordered payload are ordered. -/
theorem Json.Ordered.of_mem_datasetItems {fields : Fields Json} (h : (Json.object fields).Ordered)
    {item : Json} (hitem : item ∈ (Json.object fields).datasetItems) : item.Ordered := by
  rw [datasetItems, get?, fields?, Option.bind_some] at hitem
  cases hitems : (Fields.get? "datasets" fields).bind items? with
  | none =>
    rw [hitems] at hitem
    exact absurd hitem List.not_mem_nil
  | some items =>
    rw [hitems] at hitem
    obtain ⟨value, hget, hvalue⟩ := Option.bind_eq_some_iff.1 hitems
    obtain rfl := items?_eq_some_iff.1 hvalue
    exact (h.field hget).item hitem

theorem filterMap_ofJsonLossy? {items : List Json} {datasets : List Dataset}
    (hordered : ∀ item ∈ items, ∀ fields, item = .object fields → Fields.Ordered fields)
    (h : List.Forall₂ (fun item dataset => Dataset.ofJson? item = some dataset) items datasets) :
    items.filterMap Dataset.ofJsonLossy? = List.zipWith Dataset.lossyOf items datasets := by
  induction h with
  | nil => rfl
  | cons hdataset _ ih =>
    obtain ⟨hfirst, hrest⟩ := List.forall_mem_cons.1 hordered
    rw [List.filterMap_cons_some (Dataset.ofJsonLossy?_of_ofJson? hfirst hdataset), ih hrest,
      List.zipWith_cons_cons]

/-- **Lossy decoding of a payload that conforms** gives its response, but for the datasets with
listed points. -/
theorem ofJsonLossy_of_ofJson? {fields : Fields Json}
    (hordered : ∀ item ∈ (Json.object fields).datasetItems, ∀ own, item = .object own →
      Fields.Ordered own) {response : ChartResponse}
    (h : ChartResponse.ofJson? (.object fields) = some response) :
    ChartResponse.ofJsonLossy (.object fields) =
      { response with
        datasets :=
          List.zipWith Dataset.lossyOf (Json.object fields).datasetItems response.datasets } := by
  obtain ⟨hlabels, hdatasets, hoptions, hinfo⟩ := ChartResponse.ofJson?_object_eq_some_iff.1 h
  rw [ChartResponse.ofJsonLossy, map_labelText_of_decodeOr? hlabels,
    bind_of_decodeOptional? rfl hoptions, bind_of_decodeOptional? rfl hinfo]
  congr 1
  exact filterMap_ofJsonLossy? hordered (forall₂_of_datasets hdatasets)

/-- All datasets stay as they are exactly if no item lists its points. -/
theorem zipWith_lossyOf_eq_iff {items : List Json} {datasets : List Dataset}
    (h : List.Forall₂ (fun item dataset => Dataset.ofJson? item = some dataset) items datasets) :
    List.zipWith Dataset.lossyOf items datasets = datasets ↔
      ∀ item ∈ items, item.hasListedPoints = false := by
  induction h with
  | nil => simp
  | cons hdataset _ ih =>
    rw [List.zipWith_cons_cons, List.cons.injEq, Dataset.lossyOf_eq_iff hdataset, ih,
      List.forall_mem_cons]

/-- **Lossy and strict decoding agree** on a payload that conforms exactly if it lists the points
of no dataset. -/
theorem ofJsonLossy_eq_iff {fields : Fields Json} (hordered : (Json.object fields).Ordered)
    {response : ChartResponse} (h : ChartResponse.ofJson? (.object fields) = some response) :
    ChartResponse.ofJsonLossy (.object fields) = response ↔
      ∀ item ∈ (Json.object fields).datasetItems, item.hasListedPoints = false := by
  have hitems := forall₂_of_datasets (ChartResponse.ofJson?_object_eq_some_iff.1 h).2.1
  have hown : ∀ item ∈ (Json.object fields).datasetItems, ∀ own, item = .object own →
      Fields.Ordered own := by
    rintro item hitem own rfl
    exact (hordered.of_mem_datasetItems hitem).fields
  rw [ofJsonLossy_of_ofJson? hown h, ← zipWith_lossyOf_eq_iff hitems]
  exact ⟨congrArg ChartResponse.datasets, fun heq => by rw [heq]⟩

/-- Of two points one is listed and the other is an object, so that both are kept. -/
theorem ofJsonLossy_eq_iff_mixed :
    let payload : Json := .object [("datasets", .array [.object [
      ("data", .array [.array [.ofInt 1, .ofInt 2], .object [("x", .ofInt 3), ("y", .ofInt 4)]]),
      ("label", .string "a")]])]
    let response : ChartResponse := ⟨[], [⟨none, "a",
      .points [⟨.ofInt 1, .ofInt 2, none⟩, ⟨.ofInt 3, .ofInt 4, none⟩], none, none, none, []⟩],
      none, none⟩
    ChartResponse.ofJson? payload = some response ∧ ChartResponse.ofJsonLossy payload = response :=
  ⟨rfl, (ofJsonLossy_eq_iff (by decide +kernel) rfl).2 (by decide)⟩

/-- Two listed points conform, but lossy decoding leaves gaps of them. -/
theorem ofJsonLossy_ne_listed :
    let payload : Json := .object [("datasets", .array [.object [
      ("data", .array [.array [.ofInt 1, .ofInt 2], .array [.ofInt 3, .ofInt 4]]),
      ("label", .string "a")]])]
    let response : ChartResponse := ⟨[], [⟨none, "a",
      .points [⟨.ofInt 1, .ofInt 2, none⟩, ⟨.ofInt 3, .ofInt 4, none⟩], none, none, none, []⟩],
      none, none⟩
    ChartResponse.ofJson? payload = some response ∧
      (ChartResponse.ofJsonLossy payload).datasets.map Dataset.data = [.numbers [none, none]] ∧
      ChartResponse.ofJsonLossy payload ≠ response := by
  refine ⟨rfl, rfl, fun heq => ?_⟩
  have hdata := congrArg (fun response => response.datasets.map Dataset.data) heq
  exact nomatch (List.cons.inj hdata).1

end ChartSchema
