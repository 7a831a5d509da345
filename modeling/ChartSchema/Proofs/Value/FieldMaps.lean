import ChartSchema.Proofs.Document.Leaves
import ChartSchema.Proofs.Resolution.Merging

/-!
# Field maps written as objects

An object of paths becomes a field map by joining the names on the way to each string with dots
(`fieldMap?_eq`). As long as the names are not empty and have no dots themselves, the target can be
taken apart again (`dotted_targetBelow`), so no two strings get the same target, and the field map
holds exactly what the object holds at the names of each target (`fieldMap?_by_path`).

Collecting the entries is a recursion with the table carried along, which puts one string after
another into it. It is separated in two: the **leaves** of an object, with the names on the way to
each, say what is put in (`pathEntries`), and putting in is a matter of lists (`putEntries`). So the
table is that of a list of pairs, and is ordered whatever is in it. Under every target it holds one
of the pairs with this target, of which there is only one if the names are plain.

The leaves of an object, in turn, are what is found by following names from one object to the next
(`mem_fieldLeaves_iff_lookup?`), which is an induction over the path. A path to a leaf has one name
at least, and all its names are names of the object (`plain_of_mem_fieldLeaves`).

Values that are neither strings nor objects contribute nothing: leaving them out everywhere gives
the same table (`fieldMapEntries_pathsOnly`). They are found at their paths all the same, but what
is found there is no string.
-/

namespace ChartSchema

/-! ### Plain names -/

/-- A name that can stand between the dots of a target. -/
def IsPlainName (name : String) : Prop :=
  name ≠ "" ∧ '.' ∉ name.toList

mutual

/-- All names in the objects below a value, at every level, are plain. -/
def Value.HasPlainNames : Value → Prop
  | .object fields => FieldsHavePlainNames fields
  | _ => True

/-- All names of the fields, and in the objects below their values, are plain. -/
def Value.FieldsHavePlainNames : List (String × Value) → Prop
  | [] => True
  | (key, value) :: rest =>
    IsPlainName key ∧ value.HasPlainNames ∧ FieldsHavePlainNames rest

end

namespace Schema

/-! ### Targets -/

/-- The target of a path of names below another target. -/
def targetBelow (above : String) : List String → String
  | [] => above
  | key :: rest => targetBelow (if above = "" then key else above ++ "." ++ key) rest

/-- Below a target that is not empty, names are added behind dots. -/
theorem toList_targetBelow {above : String} (habove : above ≠ "") (path : List String) :
    (targetBelow above path).toList = joinWith '.' (above.toList :: path.map String.toList) := by
  induction path generalizing above with
  | nil => rfl
  | cons key rest ih =>
    have hnext : above ++ "." ++ key ≠ "" := by simp [habove]
    have htext : (above ++ "." ++ key).toList = (above.toList ++ ['.']) ++ key.toList := by simp
    rw [targetBelow, if_neg habove, ih hnext, htext, joinWith_append_cons]
    simp [joinWith]

/-- The names of a target, joined by dots. -/
theorem toList_targetBelow_root {path : List String} (h : ∀ name ∈ path, IsPlainName name) :
    (targetBelow "" path).toList = joinWith '.' (path.map String.toList) := by
  cases path with
  | nil => rfl
  | cons key rest =>
    rw [targetBelow, if_pos rfl, toList_targetBelow (h key List.mem_cons_self).1, List.map_cons]

/-- **A target is taken apart** into the names that it was made of. -/
theorem dotted_targetBelow {path : List String} (hne : path ≠ [])
    (h : ∀ name ∈ path, IsPlainName name) : dotted (targetBelow "" path) = path := by
  rw [dotted, toList_targetBelow_root h, splitAt_joinWith (mt List.map_eq_nil_iff.1 hne)]
  · simp
  · exact List.forall_mem_map.2 fun name hname => (h name hname).2

theorem targetBelow_dotted {target : String} (h : ∀ name ∈ dotted target, IsPlainName name) :
    targetBelow "" (dotted target) = target := by
  refine String.toList_inj.1 ?_
  rw [toList_targetBelow_root h, dotted, List.map_map]
  simp [Function.comp_def, joinWith_splitAt]

/-! ### Entries -/

/-- The entries that leaves below a target make: one for each string. -/
def pathEntries (above : String) (leaves : List (List String × Value)) : List (String × String) :=
  leaves.filterMap fun leaf => leaf.2.string?.map fun path => (targetBelow above leaf.1, path)

theorem pathEntries_append (above : String) (leaves more : List (List String × Value)) :
    pathEntries above (leaves ++ more) = pathEntries above leaves ++ pathEntries above more :=
  List.filterMap_append

/-- The entries of leaves one name further down are those below a longer target. -/
theorem pathEntries_below (above key : String) (leaves : List (List String × Value)) :
    pathEntries above (leaves.map fun leaf => (key :: leaf.1, leaf.2)) =
      pathEntries (if above = "" then key else above ++ "." ++ key) leaves :=
  List.filterMap_map

/-- Puts entries into a field map one after another. -/
def putEntries (table : FieldMap) (entries : List (String × String)) : FieldMap :=
  entries.foldl (fun table entry => Fields.insert entry.1 entry.2 table) table

theorem putEntries_append (table : FieldMap) (entries more : List (String × String)) :
    putEntries table (entries ++ more) = putEntries (putEntries table entries) more :=
  List.foldl_append

mutual

/-- The entries of a value, leaf by leaf. -/
theorem fieldMapEntry_eq (target : String) (value : Value) (table : FieldMap) :
    fieldMapEntry target value table =
      putEntries table (pathEntries target (valueLeaves value)) := by
  cases value with
  | object fields =>
    rw [fieldMapEntry, fieldMapEntries_eq]
    by_cases hempty : fields = []
    · rw [hempty]
      rfl
    · rw [valueLeaves_object hempty]
  | string | null | bool | number | array | call | deferred => rfl

/-- The entries of fields, leaf by leaf. -/
theorem fieldMapEntries_eq (above : String) (fields : List (String × Value)) (table : FieldMap) :
    fieldMapEntries above fields table =
      putEntries table (pathEntries above (fieldLeaves fields)) := by
  cases fields with
  | nil => rfl
  | cons field rest =>
    obtain ⟨key, value⟩ := field
    rw [fieldMapEntries, fieldMapEntry_eq, fieldMapEntries_eq, fieldLeaves, pathEntries_append,
      putEntries_append, pathEntries_below]

end

/-- **The field map of an object** collects the strings among its leaves under their targets. -/
theorem fieldMap?_eq (fields : Schema) :
    fieldMap? (.object fields) = some (Fields.ofList (pathEntries "" (fieldLeaves fields))) :=
  congrArg some (fieldMapEntries_eq "" fields [])

end Schema

/-! ### Leaves by path -/

/-- The only leaf without names on the way to it is the value itself. -/
theorem mem_valueLeaves_nil {held value : Value} (hleaf : IsLeaf value) :
    ([], value) ∈ valueLeaves held ↔ held = value := by
  constructor
  · intro h
    cases held with
    | object fields =>
      by_cases hempty : fields = []
      · subst hempty
        exact (congrArg Prod.snd (List.mem_singleton.1 h)).symm
      · rw [valueLeaves_object hempty] at h
        exact absurd rfl (path_ne_nil_of_mem_fieldLeaves h)
    | null | bool | number | string | array | call | deferred =>
      exact (congrArg Prod.snd (List.mem_singleton.1 h)).symm
  · rintro rfl
    rw [hleaf]
    exact List.mem_singleton.2 rfl

/-- Further down there are leaves in objects only. -/
theorem mem_valueLeaves_cons {held value : Value} {path : List String} (hpath : path ≠ []) :
    (path, value) ∈ valueLeaves held ↔
      ∃ fields, held = .object fields ∧ (path, value) ∈ fieldLeaves fields := by
  constructor
  · intro h
    cases held with
    | object fields =>
      by_cases hempty : fields = []
      · subst hempty
        exact absurd (congrArg Prod.fst (List.mem_singleton.1 h)) hpath
      · rw [valueLeaves_object hempty] at h
        exact ⟨fields, rfl, h⟩
    | null | bool | number | string | array | call | deferred =>
      exact absurd (congrArg Prod.fst (List.mem_singleton.1 h)) hpath
  · rintro ⟨fields, rfl, h⟩
    have hne : fields ≠ [] := by
      rintro rfl
      exact absurd h List.not_mem_nil
    rw [valueLeaves_object hne]
    exact h

/-- The leaves are what is found at the end of paths. -/
theorem mem_fieldLeaves_iff_lookup? {fields : Schema} (h : (Value.object fields).Ordered)
    {path : List String} {value : Value} (hleaf : IsLeaf value) :
    (path, value) ∈ fieldLeaves fields ↔ fields.lookup? path = some value := by
  induction path generalizing fields with
  | nil =>
    rw [Schema.lookup?]
    exact iff_of_false (fun hmem => path_ne_nil_of_mem_fieldLeaves hmem rfl)
      (Option.some_ne_none value).symm
  | cons key names ih =>
    have hfirst : (key :: names, value) ∈ fieldLeaves fields ↔
        ∃ held, Fields.get? key fields = some held ∧ (names, value) ∈ valueLeaves held := by
      rw [mem_fieldLeaves]
      constructor
      · rintro ⟨⟨name, held⟩, hfield, ⟨inner, found⟩, hinner, heq⟩
        obtain ⟨hnames, rfl⟩ := Prod.mk.inj heq
        obtain ⟨rfl, rfl⟩ := List.cons.inj hnames
        exact ⟨held, h.fields.get?_eq_some_iff.2 hfield, hinner⟩
      · rintro ⟨held, hget, hinner⟩
        exact ⟨_, h.fields.get?_eq_some_iff.1 hget, _, hinner, rfl⟩
    rw [hfirst]
    by_cases hnames : names = []
    · subst hnames
      simp only [mem_valueLeaves_nil hleaf, exists_eq_right]
      rfl
    · rw [Schema.lookup?_cons _ key hnames]
      simp only [mem_valueLeaves_cons hnames]
      constructor
      · rintro ⟨_, hget, inner, rfl, hmem⟩
        rw [Schema.below_of_get? hget]
        exact (ih (h.field hget)).1 hmem
      · intro hlookup
        obtain ⟨inner, hget, hlookup⟩ := Schema.exists_object_of_lookup? hlookup
        exact ⟨_, hget, inner, rfl, (ih (h.field hget)).2 hlookup⟩

mutual

/-- The names on the way to a leaf are names of the objects on the way. -/
theorem plain_of_mem_valueLeaves {value : Value} (h : value.HasPlainNames)
    {leaf : List String × Value} (hleaf : leaf ∈ valueLeaves value) :
    ∀ name ∈ leaf.1, IsPlainName name := by
  cases value with
  | object fields =>
    by_cases hempty : fields = []
    · subst hempty
      obtain rfl := List.mem_singleton.1 hleaf
      exact fun name hname => absurd hname List.not_mem_nil
    · rw [valueLeaves_object hempty] at hleaf
      exact plain_of_mem_fieldLeaves h hleaf
  | null | bool | number | string | array | call | deferred =>
    obtain rfl := List.mem_singleton.1 hleaf
    exact fun name hname => absurd hname List.not_mem_nil

/-- The names on the way to a leaf are names of the object. -/
theorem plain_of_mem_fieldLeaves {fields : List (String × Value)}
    (h : Value.FieldsHavePlainNames fields) {leaf : List String × Value}
    (hleaf : leaf ∈ fieldLeaves fields) : ∀ name ∈ leaf.1, IsPlainName name := by
  cases fields with
  | nil => exact absurd hleaf List.not_mem_nil
  | cons field rest =>
    obtain ⟨key, value⟩ := field
    obtain ⟨hkey, hvalue, hrest⟩ := h
    rw [fieldLeaves, List.mem_append, List.mem_map] at hleaf
    rcases hleaf with ⟨inner, hinner, rfl⟩ | hleaf
    · exact List.forall_mem_cons.2 ⟨hkey, plain_of_mem_valueLeaves hvalue hinner⟩
    · exact plain_of_mem_fieldLeaves hrest hleaf

end

/-! ### Field maps by path -/

mutual

/-- The value without the fields of its objects that hold neither a string nor an object. -/
def Value.pathsOnly : Value → Value
  | .object fields => .object (fieldsPathsOnly fields)
  | value => value

/-- The fields that hold a string or an object, the latter without its other fields. -/
def Value.fieldsPathsOnly : List (String × Value) → List (String × Value)
  | [] => []
  | (key, value) :: rest =>
    if value.string?.isSome || value.isObject then (key, value.pathsOnly) :: fieldsPathsOnly rest
    else fieldsPathsOnly rest

end

namespace Schema

mutual

/-- A value makes the same entries without what is no path. -/
theorem fieldMapEntry_pathsOnly (target : String) (value : Value) (table : FieldMap) :
    fieldMapEntry target value.pathsOnly table = fieldMapEntry target value table := by
  cases value with
  | object fields =>
    rw [Value.pathsOnly, fieldMapEntry, fieldMapEntry, fieldMapEntries_pathsOnly]
  | string | null | bool | number | array | call | deferred => rfl

/-- Values that are neither strings nor objects contribute nothing. -/
theorem fieldMapEntries_pathsOnly (above : String) (fields : List (String × Value))
    (table : FieldMap) :
    fieldMapEntries above (Value.fieldsPathsOnly fields) table =
      fieldMapEntries above fields table := by
  cases fields with
  | nil => rfl
  | cons field rest =>
    obtain ⟨key, value⟩ := field
    cases value with
    | string | object =>
      rw [Value.fieldsPathsOnly, if_pos (by rfl), fieldMapEntries, fieldMapEntries,
        fieldMapEntry_pathsOnly, fieldMapEntries_pathsOnly]
    | null | bool | number | array | call | deferred =>
      exact fieldMapEntries_pathsOnly above rest table

end

theorem mem_pathEntries {above target path : String} {leaves : List (List String × Value)} :
    (target, path) ∈ pathEntries above leaves ↔
      ∃ names, (names, .string path) ∈ leaves ∧ targetBelow above names = target := by
  rw [pathEntries, List.mem_filterMap]
  constructor
  · rintro ⟨⟨names, value⟩, hleaf, hentry⟩
    obtain ⟨text, htext, heq⟩ := Option.map_eq_some_iff.1 hentry
    obtain ⟨rfl, rfl⟩ := Prod.mk.inj heq
    obtain rfl := Value.string?_eq_some_iff.1 htext
    exact ⟨names, hleaf, rfl⟩
  · rintro ⟨names, hleaf, rfl⟩
    exact ⟨_, hleaf, rfl⟩

/-- The entries of an object with plain names are the strings found at its targets. -/
theorem mem_pathEntries_iff_lookupDotted? {fields : Schema}
    (hordered : (Value.object fields).Ordered) (hplain : (Value.object fields).HasPlainNames)
    {target path : String} : (target, path) ∈ pathEntries "" (fieldLeaves fields) ↔
      fields.lookupDotted? target = some (.string path) := by
  have hleaf : IsLeaf (.string path) := rfl
  rw [mem_pathEntries, lookupDotted?, ← mem_fieldLeaves_iff_lookup? hordered hleaf]
  constructor
  · rintro ⟨names, hmem, rfl⟩
    rw [dotted_targetBelow (path_ne_nil_of_mem_fieldLeaves hmem)
      (plain_of_mem_fieldLeaves hplain hmem)]
    exact hmem
  · intro hmem
    exact ⟨_, hmem, targetBelow_dotted (plain_of_mem_fieldLeaves hplain hmem)⟩

/-- **The field map of an object of paths** is ordered and has an entry exactly where following the
names between the dots of a target leads to a string. Values that are neither strings nor objects
contribute nothing. -/
theorem fieldMap?_by_path {fields : Schema} (hordered : (Value.object fields).Ordered)
    (hplain : (Value.object fields).HasPlainNames) :
    ∃ table, fieldMap? (.object fields) = some table ∧ Fields.Ordered table ∧
      (∀ target path, (target, path) ∈ table ↔
        fields.lookupDotted? target = some (.string path)) ∧
      fieldMap? (Value.object fields).pathsOnly = some table := by
  refine ⟨_, fieldMap?_eq fields, Fields.ordered_ofList _, fun target path => ?_, ?_⟩
  · rw [Fields.mem_ofList_iff, mem_pathEntries_iff_lookupDotted? hordered hplain]
    -- a target leads to one string only
    intro target one two hone htwo
    rw [mem_pathEntries_iff_lookupDotted? hordered hplain] at hone htwo
    exact Value.string.inj (Option.some.inj (hone.symm.trans htwo))
  · rw [← fieldMap?_eq]
    exact congrArg some (fieldMapEntries_pathsOnly "" fields [])

/-- Paths for nested fields beside a number and a list. -/
theorem fieldMap?_by_path_nested :
    let fields : Schema := [("datasets", .object [("count", .number (.ofInt 2)),
      ("data", .string "$.rows"), ("style", .object [("color", .string "$.tint")])]),
      ("labels", .string "$.names"), ("order", .array [.string "$.rows"])]
    (Value.object fields).Ordered ∧ (Value.object fields).HasPlainNames ∧
      ∃ table, fieldMap? (.object fields) = some table ∧
        ("datasets.style.color", "$.tint") ∈ table ∧ ∀ path, ("order", path) ∉ table := by
  intro fields
  have hordered : (Value.object fields).Ordered := by
    simp only [fields, Value.Ordered, Value.FieldsOrdered, Value.ItemsOrdered, Fields.Ordered]
    decide
  have hplain : (Value.object fields).HasPlainNames := by
    simp [fields, Value.HasPlainNames, Value.FieldsHavePlainNames, IsPlainName]
  obtain ⟨table, htable, -, hentries, -⟩ := fieldMap?_by_path hordered hplain
  refine ⟨hordered, hplain, table, htable, (hentries _ _).2 rfl, fun path hpath => ?_⟩
  have horder : fields.lookupDotted? "order" = some (.array [.string "$.rows"]) := rfl
  cases horder.symm.trans ((hentries _ _).1 hpath)

end Schema

end ChartSchema
