import ChartSchema.Proofs.Resolution.Idempotence
import ChartSchema.Proofs.Source.Rereading

/-!
# Spellings of a source

A source without headers, body, parameters and variables can be written as a call or as an object,
under two names each, and as a bare address if it is nothing but that. A `BriefSource` is such a
source: the kind, the address and at most one **detail**, which is the method of a request, the text
of a query or the interval of a stream. The functions `names`, `fieldNames`, `detail?` and
`addressAlone` say what the spellings have in common and where they differ, and
`BriefSource.spellings` lists them all.

All of them give the same source (`ofValue_spellings`). Each form is read by itself: calls with
`ofValue_call` and objects with `ofValue_object`, where the two names of the field of an interval
lead to the same reader. An interval is a number of a value here, and a positive integer below
`2 ^ 53` is an interval as it is (`intervalOf_ofInt`).

The second half follows a spelling through the resolution of a schema that has nothing but this
source. Resolution turns a call with nothing but an address into the address, which is one spelling
for another (`BriefSource.collapseSource_mem`). It replaces references to variables, of which a
spelling has none unless its texts are references themselves (`substitute_spelling`). So what is
left in the schema is a spelling of the same source, whatever the registry, the theme and the props
are.
-/

namespace ChartSchema

/-- A source with nothing but what a call can say. -/
inductive BriefSource where
  | request (url : String) (method : Option String)
  | query (url text : String)
  | stream (url : String) (interval : Option Nat)

namespace BriefSource

/-- The source that is meant. -/
def toSource : BriefSource → DataSource
  | .request url method => .request { RequestSource.ofUrl url with method }
  | .query url text => .query ⟨url, text, [], []⟩
  | .stream url interval => .stream ⟨url, interval⟩

/-- The address of a source. -/
def url : BriefSource → String
  | .request url _ => url
  | .query url _ => url
  | .stream url _ => url

/-- What a spelling says besides the address. -/
def detail? : BriefSource → Option Value
  | .request _ method => method.map Value.string
  | .query _ text => some (.string text)
  | .stream _ interval => interval.map fun (count : Nat) => .number (.ofInt count)

/-- The names of the function of a call, which are those of the type of an object. -/
def names : BriefSource → List String
  | .request .. => ["rest", "request"]
  | .query .. => ["graphql", "query"]
  | .stream .. => ["stream", "websocket"]

/-- The names of the field of an object that has the detail. -/
def fieldNames : BriefSource → List String
  | .request .. => ["method"]
  | .query .. => ["query"]
  | .stream .. => ["interval", "refreshIntervalMs"]

/-- A request without a method is written as its address. -/
def addressAlone : BriefSource → List Value
  | .request url none => [.string url]
  | _ => []

/-- The arguments of a call that spells the source: the address, and the detail if there is one. -/
def callArguments (brief : BriefSource) : List Value :=
  .string brief.url :: brief.detail?.toList

/-- The fields of an object that spells the source. -/
def objectFields (brief : BriefSource) (name field : String) : Schema :=
  Fields.ofList ([("type", .string name), ("url", .string brief.url)] ++
    brief.detail?.toList.map fun detail => (field, detail))

/-- All spellings of a source. -/
def spellings (brief : BriefSource) : List Value :=
  brief.addressAlone ++ brief.names.map (fun name => .call name brief.callArguments) ++
    brief.names.flatMap fun name =>
      brief.fieldNames.map fun field => .object (brief.objectFields name field)

/-- There is an address, and the interval, if there is one, is positive and below `2 ^ 53`. -/
def IsUsable (brief : BriefSource) : Prop :=
  hasText brief.url = true ∧ ∀ url interval, brief = .stream url (some interval) →
    0 < interval ∧ interval < Nat.pow 2 53

/-- A spelling is an address alone, a call, or an object. -/
theorem mem_spellings {brief : BriefSource} {value : Value} : value ∈ brief.spellings ↔
    value ∈ brief.addressAlone ∨
      (∃ name ∈ brief.names, value = .call name brief.callArguments) ∨
      ∃ name ∈ brief.names, ∃ field ∈ brief.fieldNames,
        value = .object (brief.objectFields name field) := by
  simp [spellings, eq_comm]

/-- A stream with an interval can be written in six ways. -/
example (url : String) (interval : Nat) :
    (spellings (.stream url (some interval))).length = 6 := rfl

/-- Only a request without a method is spelled by its address alone. -/
theorem mem_addressAlone {brief : BriefSource} {value : Value} : value ∈ brief.addressAlone ↔
    ∃ url, brief = .request url none ∧ value = .string url := by
  cases brief with
  | request url method => cases method <;> simp [addressAlone]
  | query | stream => simp [addressAlone]

end BriefSource

/-! ### Calls -/

namespace DataSource

/-- A positive integer below `2 ^ 53` is an interval as it is. -/
theorem intervalOf_ofInt {interval : Nat} (hpos : 0 < interval) (hsmall : interval < Nat.pow 2 53) :
    intervalOf (.ofInt interval) = some interval := by
  have hlt : (interval : Int).natAbs < Nat.pow 2 53 := by
    rw [Int.natAbs_natCast]
    exact hsmall
  have hnonneg : decide ((interval : Int) < 0) = false := decide_eq_false (by omega)
  have hvalue := Binary64.ofInt_of_lt hlt
  have htruncate := Binary64.truncate_ofInt hlt
  have hless : (Binary64.zero false).less (.ofInt interval) = true := by
    have hunits : 0 < (interval : Int).natAbs * unitsPerOne :=
      Nat.mul_pos (by omega) unitsPerOne_pos
    rw [hvalue, hnonneg]
    refine decide_eq_true (congrArg some (Int.compare_eq_lt.2 ?_))
    exact Int.natCast_pos.2 hunits
  have hwithin : (Binary64.ofInt interval).truncateWithin 0 0xffffffffffffffff = interval := by
    have hclamped : (Binary64.ofInt interval).truncateWithin 0 0xffffffffffffffff =
        max 0 (min 0xffffffffffffffff (Binary64.ofInt interval).truncate) := by
      rw [hvalue]
      rfl
    have hbound : Nat.pow 2 53 ≤ 0xffffffffffffffff := by decide
    rw [hclamped, htruncate]
    omega
  rw [intervalOf, if_pos hless, hwithin, Int.toNat_natCast]

end DataSource

namespace BriefSource

variable {brief : BriefSource} {name field : String}

/-- **Calls** under either name give the source. -/
theorem ofValue_call (h : brief.IsUsable) (hname : name ∈ brief.names) :
    DataSource.ofValue (.call name brief.callArguments) = .ok brief.toSource := by
  obtain ⟨hurl, hinterval⟩ := h
  have hread : (DataSource.stringArgument? brief.callArguments 0).filter hasText =
      some brief.url := Option.filter_eq_some_iff.2 ⟨rfl, hurl⟩
  rw [DataSource.ofValue, DataSource.ofCall, hread]
  dsimp only
  cases brief with
  | request url method =>
    have hmethod : DataSource.stringArgument? (callArguments (.request url method)) 1 = method := by
      cases method <;> rfl
    rw [if_pos (List.mem_pair.1 hname), hmethod]
    rfl
  | query url text =>
    rcases List.mem_pair.1 hname with rfl | rfl <;> rfl
  | stream url interval =>
    have hread : ((callArguments (.stream url interval))[1]?.bind Value.number?).bind
        DataSource.intervalOf = interval := by
      cases interval with
      | none => rfl
      | some interval =>
        obtain ⟨hpos, hsmall⟩ := hinterval url interval rfl
        have hnumber : (callArguments (.stream url (some interval)))[1]?.bind Value.number? =
            some (.ofInt interval) := rfl
        rw [hnumber, Option.bind_some, DataSource.intervalOf_ofInt hpos hsmall]
    rw [hread]
    rcases List.mem_pair.1 hname with rfl | rfl <;> rfl

end BriefSource

/-! ### Objects -/

namespace DataSource

variable {fields : Fields Json}

/-- The interval of a stream under its other name. -/
theorem readStream_of_interval {url : String}
    (hurl : Fields.get? "url" fields = some (.string url))
    (hother : Fields.get? "refreshIntervalMs" fields = none) :
    readStream fields = (readNullable "interval" readInterval fields).map
      fun interval => ⟨url, interval⟩ := by
  rw [readStream, readSpelled_of_second_absent hother fun name => readNullable_of_absent,
    readField_text hurl]
  cases readNullable "interval" readInterval fields <;> rfl

/-- An interval below `2 ^ 53` is read from the number of a value. -/
theorem readNullable_interval {name : String} {interval : Option Nat}
    (hsmall : ∀ count, interval = some count → count < Nat.pow 2 53)
    (h : Fields.get? name fields =
      (interval.map fun (count : Nat) => Value.number (.ofInt count)).map Value.toJson) :
    readNullable name readInterval fields = .ok interval := by
  cases interval with
  | none => exact readNullable_of_absent h
  | some count =>
    have hlt : (count : Int).natAbs < Nat.pow 2 53 := by
      rw [Int.natAbs_natCast]
      exact hsmall count rfl
    have hjson : Fields.get? name fields =
        some (.number (.integer count (JsonNumber.inRange_of_lt hlt))) := by
      rw [h, Option.map_some, Option.map_some, Value.toJson, Json.ofMeasure_ofInt hlt,
        Json.ofInt_of_lt hlt]
    rw [readNullable, hjson]
    exact congrArg (Except.map some) (readInterval_eq_ok_iff.2 ⟨_, _, rfl, rfl⟩)

end DataSource

namespace BriefSource

variable {brief : BriefSource} {name field : String}

/-- What stands in an object that spells a source. -/
theorem get?_objectFields (hfield : field ≠ "type" ∧ field ≠ "url") (key : String) :
    Fields.get? key (brief.objectFields name field) =
      if key = "type" then some (.string name)
      else if key = "url" then some (.string brief.url)
      else if key = field then brief.detail? else none := by
  have hdetail : Fields.get? key (Fields.ofList
      (brief.detail?.toList.map fun detail => (field, detail))) =
        if field = key then brief.detail? else none := by
    cases brief.detail? with
    | none => simp
    | some detail => simp
  rw [objectFields, Fields.get?_ofList_append, hdetail]
  by_cases htype : key = "type"
  · subst htype
    simp [hfield.1]
  · by_cases hurl : key = "url"
    · subst hurl
      simp [hfield.2]
    · simp [htype, hurl, Ne.symm htype, Ne.symm hurl, eq_comm]

/-- What the reader of objects finds in an object that spells a source. -/
theorem get?_objectJson (hfield : field ∈ brief.fieldNames) (key : String) :
    Fields.get? key (Value.fieldsToJson (brief.objectFields name field)) =
      if key = "type" then some (.string name)
      else if key = "url" then some (.string brief.url)
      else if key = field then brief.detail?.map Value.toJson else none := by
  have hother : field ≠ "type" ∧ field ≠ "url" := by
    cases brief with
    | request => rw [List.mem_singleton.1 hfield]; decide
    | query => rw [List.mem_singleton.1 hfield]; decide
    | stream => rcases List.mem_pair.1 hfield with rfl | rfl <;> decide
  rw [Value.get?_fieldsToJson, get?_objectFields hother]
  split
  · rfl
  · split
    · rfl
    · split <;> rfl

/-- **Objects** with either name for their type, and for the field of the interval, give the
source. -/
theorem ofValue_object (h : brief.IsUsable) (hname : name ∈ brief.names)
    (hfield : field ∈ brief.fieldNames) :
    DataSource.ofValue (.object (brief.objectFields name field)) = .ok brief.toSource := by
  have hget := @get?_objectJson brief name field hfield
  rw [DataSource.ofValue]
  -- reading an object looks its fields up, so how they are sorted is of no matter
  generalize Value.fieldsToJson (brief.objectFields name field) = fields at hget ⊢
  have hurl : Fields.get? "url" fields = some (.string brief.url) := hget "url"
  rw [DataSource.ofFields, hget "type"]
  cases brief with
  | request url method =>
    obtain rfl := List.mem_singleton.1 hfield
    have hheaders : Fields.get? "headers" fields =
        DataSource.tableJson (Fields.mapValues Json.string []) := hget "headers"
    have hmethod : Fields.get? "method" fields = method.map Json.string := by
      rw [hget "method"]
      cases method <;> rfl
    have hread : DataSource.readRequest fields = .ok ⟨url, method, [], none, []⟩ :=
      DataSource.readRequest_of_parts hurl hmethod hheaders (hget "body") (hget "params")
        (hget "queryParams")
    rcases List.mem_pair.1 hname with rfl | rfl <;>
      exact congrArg (Except.map DataSource.request) hread
  | query url text =>
    obtain rfl := List.mem_singleton.1 hfield
    have hheaders : Fields.get? "headers" fields =
        DataSource.tableJson (Fields.mapValues Json.string []) := hget "headers"
    have hread : DataSource.readQuery fields = .ok ⟨url, text, [], []⟩ :=
      DataSource.readQuery_of_parts hurl (hget "query") (hget "variables") hheaders
    rcases List.mem_pair.1 hname with rfl | rfl <;>
      exact congrArg (Except.map DataSource.query) hread
  | stream url interval =>
    have hsmall (count : Nat) (hcount : interval = some count) : count < Nat.pow 2 53 :=
      (h.2 url count (congrArg (stream url) hcount)).2
    have hread : DataSource.readStream fields = .ok ⟨url, interval⟩ := by
      rcases List.mem_pair.1 hfield with rfl | rfl
      · rw [DataSource.readStream_of_interval hurl (hget "refreshIntervalMs"),
          DataSource.readNullable_interval hsmall (hget "interval")]
        rfl
      · rw [DataSource.readStream_of_parts hurl (hget "interval"),
          DataSource.readNullable_interval hsmall (hget "refreshIntervalMs")]
        rfl
    rcases List.mem_pair.1 hname with rfl | rfl <;>
      exact congrArg (Except.map DataSource.stream) hread

/-- **Every spelling gives the source**, whichever it is. -/
theorem ofValue_spelling (h : brief.IsUsable) {value : Value} (hvalue : value ∈ brief.spellings) :
    DataSource.ofValue value = .ok brief.toSource := by
  rcases mem_spellings.1 hvalue with halone | ⟨name, hname, rfl⟩ | ⟨name, hname, field, hfield, rfl⟩
  · obtain ⟨url, rfl, rfl⟩ := mem_addressAlone.1 halone
    exact if_pos h.1
  · exact ofValue_call h hname
  · exact ofValue_object h hname hfield

end BriefSource

/-! ### Resolution -/

section Resolution

variable {theme : Variables} {props : Option Json}

/-- A text that is no reference is not replaced, and nothing is reported. -/
theorem substitute_of_not_reference {text : String} (h : isVariableReference text = false)
    (path : String) : substitute theme props path (.string text) = (.string text, []) := by
  rw [substitute, h, if_neg Bool.false_ne_true]

/-- Fields of which each stays stay as a whole. -/
theorem substituteFields_of_fixed {fields : List (String × Value)}
    (h : ∀ field ∈ fields, ∀ path, substitute theme props path field.2 = (field.2, []))
    (path : String) : substituteFields theme props path fields = (fields, []) := by
  induction fields with
  | nil => rfl
  | cons field rest ih =>
    obtain ⟨key, value⟩ := field
    obtain ⟨hvalue, hrest⟩ := List.forall_mem_cons.1 h
    simp only [substituteFields, hvalue (path ++ "." ++ key), ih hrest, List.append_nil]

/-- A schema with nothing but a source is resolved by itself. -/
theorem resolve_source (registry : Registry) (value : Value) :
    resolve registry theme props [(Schema.sourceKey, value)] =
      ⟨[(Schema.sourceKey, (substitute theme props Schema.sourceKey (collapseSource value)).1)], [],
        (substitute theme props Schema.sourceKey (collapseSource value)).2⟩ := by
  have hbase : Fields.get? Schema.baseKey [(Schema.sourceKey, value)] = none :=
    if_neg (by decide)
  have hordered : Fields.Ordered [(Schema.sourceKey, value)] := List.pairwise_singleton _ _
  have hmap : Schema.sourceKey ≠ Schema.mapKey := by decide
  rw [resolve, resolveFrom_eq, followBases_of_none hbase]
  simp only [List.map_nil, mergeLayers_singleton hordered hbase, finish, if_neg hmap, if_true,
    List.append_nil, Option.toList_none, List.nil_append]

end Resolution

namespace BriefSource

variable {brief : BriefSource} {value : Value}

/-- The texts in the spellings of a source. -/
def texts : BriefSource → List String
  | .request url method => url :: method.toList
  | .query url text => [url, text]
  | .stream url _ => [url]

/-- A plain call becomes the address, which is a spelling as well. -/
theorem collapseSource_mem (h : value ∈ brief.spellings) :
    collapseSource value ∈ brief.spellings := by
  rcases collapseSource_cases value with ⟨name, url, hname, rfl, hcollapse⟩ | ⟨-, hcollapse⟩
  · rw [hcollapse]
    rcases mem_spellings.1 h with halone | ⟨other, hother, heq⟩ | ⟨_, _, _, _, heq⟩
    · obtain ⟨_, _, heq⟩ := mem_addressAlone.1 halone
      exact nomatch heq
    · obtain ⟨rfl, hargs⟩ := Value.call.inj heq
      obtain ⟨hurl, hdetail⟩ := List.cons.inj hargs
      obtain rfl := Value.string.inj hurl
      cases brief with
      | request url method =>
        -- with a method the call has a second argument, and is not plain
        cases method with
        | none => exact mem_spellings.2 (.inl (mem_addressAlone.2 ⟨url, rfl, rfl⟩))
        | some method => exact nomatch hdetail
      | query => exact nomatch hdetail
      | stream =>
        have hnot : ∀ plain ∈ ["rest", "request"], plain ∉ ["stream", "websocket"] := by decide
        exact absurd hother (hnot name (List.mem_pair.2 hname))
    · exact nomatch heq
  · rw [hcollapse]
    exact h

section Texts

variable {theme : Variables} {props : Option Json}
  (htexts : ∀ text ∈ brief.texts, isVariableReference text = false)

include htexts

/-- The detail of a source is a number, or a text that is no reference. -/
theorem substitute_detail {detail : Value} (h : detail ∈ brief.detail?) (path : String) :
    substitute theme props path detail = (detail, []) := by
  cases brief with
  | request url method =>
    obtain ⟨method, rfl, rfl⟩ := Option.map_eq_some_iff.1 h
    exact substitute_of_not_reference (htexts method (by simp [texts])) path
  | query url text =>
    obtain rfl := Option.some.inj h
    exact substitute_of_not_reference (htexts text (by simp [texts])) path
  | stream url interval =>
    obtain ⟨interval, rfl, rfl⟩ := Option.map_eq_some_iff.1 h
    rfl

/-- An object that spells a source has nothing to replace. -/
theorem substitute_objectFields {name field : String} (hname : name ∈ brief.names)
    (path : String) : substituteFields theme props path (brief.objectFields name field) =
      (brief.objectFields name field, []) := by
  refine substituteFields_of_fixed (fun entry hentry path => ?_) path
  obtain ⟨key, value⟩ := entry
  have hmem := Fields.mem_of_get?_ofList
    ((Fields.ordered_ofList _).get?_eq_some_iff.2 hentry)
  rw [List.mem_append, List.mem_pair, List.mem_map] at hmem
  rcases hmem with (heq | heq) | ⟨detail, hdetail, heq⟩
  · have hplain : isVariableReference name = false := by
      cases brief <;> rcases List.mem_pair.1 hname with rfl | rfl <;> decide
    rw [(Prod.mk.inj heq).2]
    exact substitute_of_not_reference hplain path
  · have hurl : brief.url ∈ brief.texts := by cases brief <;> exact List.mem_cons_self
    rw [(Prod.mk.inj heq).2]
    exact substitute_of_not_reference (htexts _ hurl) path
  · rw [← (Prod.mk.inj heq).2]
    exact substitute_detail htexts (Option.mem_toList.1 hdetail) path

/-- **Spellings hold nothing to replace**, if their texts are no references. -/
theorem substitute_spelling (h : value ∈ brief.spellings) (path : String) :
    substitute theme props path value = (value, []) := by
  rcases mem_spellings.1 h with halone | ⟨name, -, rfl⟩ | ⟨name, hname, field, -, rfl⟩
  · obtain ⟨url, rfl, rfl⟩ := mem_addressAlone.1 halone
    exact substitute_of_not_reference (htexts url (by simp [texts])) path
  · rfl
  · rw [substitute, substitute_objectFields htexts hname]

end Texts

/-- **All spellings of a source mean the same**, also in a schema with nothing else that has been
resolved, if their texts are no references to variables. -/
theorem ofValue_spellings (h : brief.IsUsable) :
    (∀ value ∈ brief.spellings, DataSource.ofValue value = .ok brief.toSource) ∧
    ((∀ text ∈ brief.texts, isVariableReference text = false) →
      ∀ value ∈ brief.spellings, ∀ registry theme props, ∃ resolved,
        resolve registry theme props [(Schema.sourceKey, value)] =
          ⟨[(Schema.sourceKey, resolved)], [], []⟩ ∧
        DataSource.ofValue resolved = .ok brief.toSource) := by
  refine ⟨fun value => ofValue_spelling h, fun htexts value hvalue registry theme props => ?_⟩
  have hcollapsed := collapseSource_mem hvalue
  refine ⟨collapseSource value, ?_, ofValue_spelling h hcollapsed⟩
  rw [resolve_source, substitute_spelling htexts hcollapsed]

/-- A stream written as an object, and a request written as a call. -/
theorem ofValue_spellings_rest :
    let stream : BriefSource := .stream "https://a" (some 250)
    let request : BriefSource := .request "https://a" none
    let written : Value := .object [("interval", .number (.ofInt 250)),
      ("type", .string "websocket"), ("url", .string "https://a")]
    stream.IsUsable ∧ DataSource.ofValue written = .ok (.stream ⟨"https://a", some 250⟩) ∧
      request.IsUsable ∧ (∀ text ∈ request.texts, isVariableReference text = false) ∧
      ∃ resolved, resolve [] [] none [("source", .call "rest" [.string "https://a"])] =
        ⟨[("source", resolved)], [], []⟩ ∧
        DataSource.ofValue resolved = .ok (.request (.ofUrl "https://a")) := by
  intro stream request written
  have hstream : stream.IsUsable := by
    refine ⟨by decide +kernel, fun url interval heq => ?_⟩
    obtain ⟨-, hinterval⟩ := BriefSource.stream.inj heq
    obtain rfl := Option.some.inj hinterval
    decide
  have hsorted (count : Value) : [("interval", count), ("type", .string "websocket"),
      ("url", .string "https://a")] = Fields.ofList [("type", .string "websocket"),
        ("url", .string "https://a"), ("interval", count)] := by
    simp only [Fields.ofList, List.foldl_cons, List.foldl_nil, Fields.insert]
    exact (if_pos (by decide)).symm
  have hfields : written = .object (stream.objectFields "websocket" "interval") :=
    congrArg Value.object (hsorted _)
  have hwritten : written ∈ stream.spellings :=
    mem_spellings.2 (.inr (.inr ⟨"websocket", by decide, "interval", by decide, hfields⟩))
  have hrequest : request.IsUsable :=
    ⟨by decide +kernel, fun _ _ heq => absurd heq (by simp [request])⟩
  have htexts : ∀ text ∈ request.texts, isVariableReference text = false := by decide +kernel
  have hcall : .call "rest" [.string "https://a"] ∈ request.spellings :=
    mem_spellings.2 (.inr (.inl ⟨"rest", by decide, rfl⟩))
  exact ⟨hstream, (ofValue_spellings hstream).1 written hwritten, hrequest, htexts,
    (ofValue_spellings hrequest).2 htexts _ hcall [] [] none⟩

end BriefSource

end ChartSchema
