import ChartSchema.Proofs.Resolution.Merging
import ChartSchema.Proofs.Resolution.Substitution

/-!
# Resolving again

Without props, and with variables that stand for plain strings, there is nothing left to do after
resolution. A resolved schema has no base, and merging it over nothing gives it back, so that
resolving it again changes nothing and finds the same references undefined (`resolve_again`).

What has to be shown is that substitution is done after one round. A string is either no reference
and stays, or a reference without a variable, which stays too and is reported again, or it becomes
the string of a variable. The variables are **settled** (`Variables.Settled`) if these strings are
no references themselves; without that a second round could put in something else. Callbacks are
evaluated only with props, and stay as they are. The statement about a value is an induction over it
(`substitute_again`), with the lists of items and fields beside it.

One thing is done to a merged schema that is not substitution: a plain call as the source is
replaced by its address. What comes of this is a string, and a string or a call of another form is
not replaced again (`entered_substitute`). So the finished schema is finished (`finish_finish`).

The errors of the first resolution are those about the chain of bases and those about variables,
told apart by their codes (`code_of_mem_stop`); the chain is gone, and the others come up in the
same order.
-/

namespace ChartSchema

/-- Every variable stands for a string that is no reference itself. -/
def Variables.Settled (theme : Variables) : Prop :=
  ∀ name value, Fields.get? name theme = some value →
    ∃ text, value = .string text ∧ isVariableReference text = false

section Settled

variable {theme : Variables}

/-- What stands for a reference under settled variables is a plain string. -/
theorem Variables.Settled.exists_string (h : theme.Settled) {reference : String} {value : Value}
    (hvalue : theme.get? reference = some value) :
    ∃ text, value = .string text ∧ isVariableReference text = false :=
  h _ value hvalue

/-! ### Values -/

/-- Items that do not change again make a list that does not. -/
theorem substituteItems_again {items : List Value} {props : Option Json}
    (h : ∀ item ∈ items, ∀ path, substitute theme props path (substitute theme props path item).1 =
      substitute theme props path item) (path : String) (position : Nat) :
    substituteItems theme props path position
        (substituteItems theme props path position items).1 =
      substituteItems theme props path position items := by
  induction items generalizing position with
  | nil => rfl
  | cons item rest ih =>
    obtain ⟨hitem, hrest⟩ := List.forall_mem_cons.1 h
    simp only [substituteItems, hitem, ih hrest]

theorem substituteFields_again {fields : List (String × Value)} {props : Option Json}
    (h : ∀ field ∈ fields, ∀ path, substitute theme props path
      (substitute theme props path field.2).1 = substitute theme props path field.2)
    (path : String) :
    substituteFields theme props path (substituteFields theme props path fields).1 =
      substituteFields theme props path fields := by
  induction fields with
  | nil => rfl
  | cons field rest ih =>
    obtain ⟨key, value⟩ := field
    obtain ⟨hvalue, hrest⟩ := List.forall_mem_cons.1 h
    have hagain := hvalue (path ++ "." ++ key)
    simp only [substituteFields, hagain, ih hrest]

/-- A string that is looked up once is a string that is not looked up again, or has no variable. -/
theorem substitute_string (h : theme.Settled) (path text : String) :
    ∃ result, (substitute theme none path (.string text)).1 = .string result ∧
      substitute theme none path (.string result) = substitute theme none path (.string text) := by
  by_cases hreference : isVariableReference text = true
  · cases hvalue : theme.get? text with
    | some value =>
      obtain ⟨result, rfl, hplain⟩ := h.exists_string hvalue
      have hfirst : substitute theme none path (.string text) = (.string result, []) := by
        rw [substitute, if_pos hreference, hvalue]
      refine ⟨result, by rw [hfirst], ?_⟩
      rw [hfirst, substitute, if_neg (by rw [hplain]; exact Bool.false_ne_true)]
    | none => exact ⟨text, by rw [substitute, if_pos hreference, hvalue], rfl⟩
  · exact ⟨text, by rw [substitute, if_neg hreference], rfl⟩

/-- **Substituting again changes nothing**, and reports the same. -/
theorem substitute_again (h : theme.Settled) (value : Value) (path : String) :
    substitute theme none path (substitute theme none path value).1 =
      substitute theme none path value := by
  induction value using Value.induction generalizing path with
  | array items ih => simp only [substitute, substituteItems_again ih]
  | object fields ih => simp only [substitute, substituteFields_again ih]
  | leaf value hitems hfields =>
    cases value with
    | string text =>
      obtain ⟨result, hresult, hagain⟩ := substitute_string h path text
      rw [hresult]
      exact hagain
    | array => exact absurd hitems (Option.some_ne_none _)
    | object => exact absurd hfields (Option.some_ne_none _)
    | null | bool | number | call | deferred => rfl

/-! ### Schemas -/

/-- What a source has become is not collapsed again. -/
theorem collapseSource_substitute (h : theme.Settled) (path : String) {value : Value}
    (hvalue : collapseSource value = value) :
    collapseSource (substitute theme none path value).1 = (substitute theme none path value).1 := by
  cases value with
  | string text =>
    obtain ⟨result, hresult, -⟩ := substitute_string h path text
    rw [hresult]
    rfl
  | array | object =>
    rw [substitute]
    rfl
  | null | bool | number | call | deferred => exact hvalue

/-- What a property has become is not replaced by an address again. -/
theorem entered_substitute (h : theme.Settled) (key path : String) (value : Value) :
    entered key (substitute theme none path (entered key value)).1 =
      (substitute theme none path (entered key value)).1 := by
  by_cases hsource : key = Schema.sourceKey
  · have hentered (value : Value) : entered key value = collapseSource value := if_pos hsource
    rw [hentered, hentered]
    refine collapseSource_substitute h path ?_
    rcases collapseSource_cases value with ⟨name, url, -, -, haddress⟩ | ⟨-, hsame⟩
    · rw [haddress]
      rfl
    · rw [hsame, hsame]
  · have hentered (value : Value) : entered key value = value := if_neg hsource
    rw [hentered, hentered]

/-- **A finished schema stays as it is** when it is finished again, and the same errors come up. -/
theorem finish_finish (h : theme.Settled) (fields : List (String × Value)) :
    finish theme none (finish theme none fields).1 = finish theme none fields := by
  induction fields with
  | nil => rfl
  | cons field rest ih =>
    obtain ⟨key, value⟩ := field
    rw [finish_cons, finish_cons, ih]
    by_cases hmap : key = Schema.mapKey
    · simp only [if_pos hmap]
    · simp only [if_neg hmap, entered_substitute h, substitute_again h]

end Settled

/-! ### Resolved schemas -/

/-- Merged layers are ordered, whatever the layers are. -/
theorem ordered_mergeLayers (layers : List Schema) : Fields.Ordered (mergeLayers layers) := by
  induction layers with
  | nil => exact List.Pairwise.nil
  | cons layer rest ih => exact Schema.ordered_mergeInto _ ih

/-- A schema without a base is its only layer. -/
theorem mergeLayers_singleton {schema : Schema} (h : Fields.Ordered schema)
    (hbase : Fields.get? Schema.baseKey schema = none) : mergeLayers [schema] = schema := by
  have hwithout : schema.withoutBase = schema := by
    refine List.filter_eq_self.2 fun field hfield => decide_eq_true fun hkey => ?_
    exact Fields.get?_eq_none_iff.1 hbase (hkey ▸ List.mem_map_of_mem hfield)
  exact (congrArg (Schema.deepMerge []) hwithout).trans (Schema.deepMerge_nil h)

theorem followBases_of_none {registry : Registry} {chain : List String} {schema : Schema}
    (hbase : Fields.get? Schema.baseKey schema = none) :
    followBases registry chain schema = ⟨[], none⟩ := by
  rw [followBases]
  split
  · rfl
  · next hname => exact absurd (hbase.symm.trans hname) (Option.some_ne_none _).symm
  · next hother => exact absurd (hbase.symm.trans hother) (Option.some_ne_none _).symm

/-- No error about the chain of bases is about a variable. -/
theorem code_of_mem_stop {registry : Registry} {chain : List String} {schema : Schema}
    {error : ResolutionError} (h : error ∈ (followBases registry chain schema).stop.toList) :
    error.code ≠ "VARIABLE_NOT_FOUND" := by
  obtain ⟨ending, -, hreports⟩ := follows_followBases registry chain schema
  have hreported := List.mem_map_of_mem h (f := fun error : ResolutionError =>
    (error.code, error.message))
  rw [hreports] at hreported
  intro hcode
  rw [hcode] at hreported
  cases ending <;> simp [WalkEnd.report] at hreported

/-- **Resolving again changes nothing.** The bases are gone, and of the errors those about variables
are found again. -/
theorem resolve_again (registry : Registry) {theme : Variables} (h : theme.Settled)
    (schema : Schema) :
    resolve registry theme none (resolve registry theme none schema).schema =
      ⟨(resolve registry theme none schema).schema, [],
        (resolve registry theme none schema).errors.filter
          fun error => error.code = "VARIABLE_NOT_FOUND"⟩ := by
  obtain ⟨bases, ending, along⟩ := resolveFrom_along registry theme none List.nodup_nil schema
  have hbase : Fields.get? Schema.baseKey (resolve registry theme none schema).schema = none :=
    along.withoutBase
  obtain ⟨merged, hmerged⟩ : ∃ merged, merged =
    mergeLayers (schema :: (followBases registry [] schema).bases.map Prod.snd) := ⟨_, rfl⟩
  have hschema : (resolve registry theme none schema).schema = (finish theme none merged).1 := by
    rw [hmerged, resolve, resolveFrom_eq]
  have herrors : (resolve registry theme none schema).errors =
      (followBases registry [] schema).stop.toList ++ (finish theme none merged).2 := by
    rw [hmerged, resolve, resolveFrom_eq]
  have hordered : Fields.Ordered (finish theme none merged).1 :=
    (hmerged ▸ ordered_mergeLayers _).of_keys_eq (keys_finish theme none merged)
  -- the errors of the chain have other codes, and those behind them are all about variables
  have hfilter : (resolve registry theme none schema).errors.filter
      (fun error => error.code = "VARIABLE_NOT_FOUND") = (finish theme none merged).2 := by
    rw [herrors, List.filter_append, List.filter_eq_nil_iff.2, List.nil_append,
      List.filter_eq_self.2]
    · exact fun error hmem => decide_eq_true (onlyVariables_finish theme none merged error hmem)
    · exact fun error hmem hcode => code_of_mem_stop hmem (of_decide_eq_true hcode)
  rw [hfilter]
  rw [hschema] at hbase ⊢
  rw [resolve, resolveFrom_eq, followBases_of_none hbase]
  simp only [List.map_nil, mergeLayers_singleton hordered hbase, finish_finish h,
    Option.toList_none, List.nil_append]

/-- A missing base, a reference that is defined and one that is not. -/
theorem resolve_again_missing :
    let theme : Variables := [("u", .string "a")]
    let schema : Schema := [("extends", .string "gone"), ("series", .array [.string "$x"]),
      ("source", .call "rest" [.string "$u"])]
    let rewritten : Schema := [("series", .array [.string "$x"]), ("source", .string "a")]
    let undefined : ResolutionError := .variableNotFound "$x" "series[0]"
    theme.Settled ∧
      resolve [] theme none schema = ⟨rewritten, [], [.missingSchema "gone", undefined]⟩ ∧
      resolve [] theme none rewritten = ⟨rewritten, [], [undefined]⟩ := by
  intro theme schema rewritten undefined
  have hsettled : theme.Settled := by
    intro name value hvalue
    rw [Fields.get?_cons] at hvalue
    split at hvalue
    · exact ⟨"a", (Option.some.inj hvalue).symm, rfl⟩
    · exact absurd hvalue (Option.some_ne_none _).symm
  have hfirst : resolve [] theme none schema =
      ⟨rewritten, [], [.missingSchema "gone", undefined]⟩ := by
    have hbases : followBases [] [] schema = ⟨[], some (.missingSchema "gone")⟩ := by
      rw [followBases]
      rfl
    rw [resolve, resolveFrom_eq, hbases]
    rfl
  have hagain := resolve_again [] hsettled schema
  rw [hfirst] at hagain
  exact ⟨hsettled, hfirst, hagain⟩

end ChartSchema
