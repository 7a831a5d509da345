import Mathlib.Data.List.Forall2
import ChartSchema.Proofs.Document.RoundTrip
import ChartSchema.Proofs.Fields.Lookup

/-!
# The leaves of schemas

A leaf of a schema is a value without fields of its own, together with the path that leads to it.
This module follows leaves through everything that happens to a schema between a document and its
text. Objects without fields count as leaves, so that every value has one (`valueLeaves_ne_nil`).

* **Building.** An entry that is carried out adds itself as a leaf and no other
  (`mem_fieldLeaves_insertPath`), although it can take leaves away. So a schema that is built from
  entries has no other leaves than these entries (`mem_fieldLeaves_applyEntries`), and with values
  in order its fields are in order (`ordered_applyEntries`).
* **Comparing.** Equality of schemas is no identity, since the two zeros agree and callbacks are
  compared by their text. Equal schemas have leaves at the same paths with equal values, one by one
  (`fieldLeaves_equal`).
* **Keeping.** What is kept of a schema has exactly the kept leaves (`fieldLeaves_keepFieldLeaves`),
  and a schema of which every leaf is kept is kept as it is (`keepFieldLeaves_of_leaves`).

The recursions over values and over fields are mutual, and so are the proofs: each statement about
the leaves of a schema has a companion about the leaves of one value, with the path as it stands
below a key (`leavesBelow`).
-/

namespace ChartSchema

/-- A value that is a leaf by itself: no object with fields. -/
def IsLeaf (value : Value) : Prop :=
  valueLeaves value = [([], value)]

/-- What is no object is a leaf. -/
theorem isLeaf_of_ne_object {value : Value} (h : ∀ fields, value ≠ .object fields) :
    IsLeaf value := by
  rw [IsLeaf, valueLeaves]
  exact h

/-- The leaves of an object with fields are those of its fields. -/
theorem valueLeaves_object {fields : List (String × Value)} (h : fields ≠ []) :
    valueLeaves (.object fields) = fieldLeaves fields := by
  rw [valueLeaves, if_neg (by simpa using h)]

/-- The leaves below a key. -/
def leavesBelow (key : String) (value : Value) : List (List String × Value) :=
  (valueLeaves value).map (entryBelow key)

/-- The recursion over fields as one pass over them. -/
theorem fieldLeaves_eq_flatMap (fields : List (String × Value)) :
    fieldLeaves fields = fields.flatMap fun field => leavesBelow field.1 field.2 := by
  induction fields with
  | nil => rfl
  | cons field rest ih =>
    rw [fieldLeaves, ih, List.flatMap_cons]
    rfl

theorem fieldLeaves_append (fields more : List (String × Value)) :
    fieldLeaves (fields ++ more) = fieldLeaves fields ++ fieldLeaves more := by
  simp only [fieldLeaves_eq_flatMap, List.flatMap_append]

/-- A leaf of a schema is a leaf of what stands in one of the fields, below its key. -/
theorem mem_fieldLeaves {fields : List (String × Value)} {leaf : List String × Value} :
    leaf ∈ fieldLeaves fields ↔
      ∃ field ∈ fields, ∃ inner ∈ valueLeaves field.2, entryBelow field.1 inner = leaf := by
  simp only [fieldLeaves_eq_flatMap, leavesBelow, List.mem_flatMap, List.mem_map]

mutual

/-- Every value has a leaf. -/
theorem valueLeaves_ne_nil (value : Value) : valueLeaves value ≠ [] := by
  cases value with
  | object fields =>
    rw [valueLeaves]
    split
    · exact List.cons_ne_nil _ _
    · next hfields => exact fieldLeaves_ne_nil fields (by simpa using hfields)
  | null | bool | number | string | array | call | deferred => exact List.cons_ne_nil _ _

theorem fieldLeaves_ne_nil (fields : List (String × Value)) (h : fields ≠ []) :
    fieldLeaves fields ≠ [] := by
  cases fields with
  | nil => exact absurd rfl h
  | cons field rest =>
    obtain ⟨key, value⟩ := field
    rw [fieldLeaves]
    exact List.append_ne_nil_of_left_ne_nil (mt List.map_eq_nil_iff.1 (valueLeaves_ne_nil value)) _

end

mutual

/-- The leaves of a value are leaves by themselves. -/
theorem isLeaf_of_mem_valueLeaves {value : Value} {leaf : List String × Value}
    (h : leaf ∈ valueLeaves value) : IsLeaf leaf.2 := by
  cases value with
  | object fields =>
    rw [valueLeaves] at h
    split at h
    · obtain rfl := List.mem_singleton.1 h
      rfl
    · exact isLeaf_of_mem_fieldLeaves h
  | null | bool | number | string | array | call | deferred =>
    obtain rfl := List.mem_singleton.1 h
    rfl

/-- The leaves of a schema are leaves by themselves. -/
theorem isLeaf_of_mem_fieldLeaves {fields : List (String × Value)} {leaf : List String × Value}
    (h : leaf ∈ fieldLeaves fields) : IsLeaf leaf.2 := by
  cases fields with
  | nil => exact absurd h List.not_mem_nil
  | cons field rest =>
    obtain ⟨key, value⟩ := field
    rw [fieldLeaves, List.mem_append, List.mem_map] at h
    rcases h with ⟨inner, hinner, rfl⟩ | hrest
    · exact @isLeaf_of_mem_valueLeaves value inner hinner
    · exact isLeaf_of_mem_fieldLeaves hrest

end

/-! ### Leaves that are built -/

/-- What is found is there, in order or not. -/
theorem Fields.mem_of_get? {α : Type} {fields : Fields α} {key : String} {value : α}
    (h : Fields.get? key fields = some value) : (key, value) ∈ fields := by
  induction fields with
  | nil => exact nomatch h
  | cons field rest ih =>
    obtain ⟨name, held⟩ := field
    rw [Fields.get?_cons] at h
    split at h
    · next hname =>
      rw [hname, Option.some.inj h]
      exact List.mem_cons_self
    · exact List.mem_cons_of_mem _ (ih h)

theorem Fields.insert_ne_nil {α : Type} (key : String) (value : α) (fields : Fields α) :
    Fields.insert key value fields ≠ [] := by
  intro hnil
  have hget := Fields.get?_insert_self key value fields
  rw [hnil] at hget
  exact nomatch hget

/-- Below a key are the fields of its object, or none. -/
theorem Schema.below_cases (schema : Schema) (key : String) :
    schema.below key = [] ∨ (key, .object (schema.below key)) ∈ schema := by
  rw [Schema.below]
  cases hget : Fields.get? key schema with
  | none => exact .inl rfl
  | some value =>
    cases value with
    | object fields => exact .inr (Fields.mem_of_get? hget)
    | null | bool | number | string | array | call | deferred => exact .inl rfl

/-- The leaves of the object under a key. -/
theorem mem_fieldLeaves_of_below {schema : Schema} {key : String} {leaf : List String × Value}
    (h : leaf ∈ fieldLeaves (schema.below key)) : (key :: leaf.1, leaf.2) ∈ fieldLeaves schema := by
  rcases schema.below_cases key with hnil | hfield
  · rw [hnil, fieldLeaves] at h
    exact absurd h List.not_mem_nil
  · refine mem_fieldLeaves.2 ⟨_, hfield, leaf, ?_, rfl⟩
    have hne : schema.below key ≠ [] := by
      intro hnil
      rw [hnil, fieldLeaves] at h
      exact absurd h List.not_mem_nil
    rw [valueLeaves_object hne]
    exact h

theorem insertPath_ne_nil (value : Value) {path : List String} (hpath : path ≠ [])
    (schema : Schema) : Schema.insertPath value path schema ≠ [] := by
  obtain ⟨key, names, rfl⟩ := List.exists_cons_of_ne_nil hpath
  by_cases hnames : names = []
  · subst hnames
    exact Fields.insert_ne_nil key value schema
  · rw [insertPath_below value key hnames]
    exact Fields.insert_ne_nil key _ schema

/-- An entry adds itself as a leaf and no other. -/
theorem mem_fieldLeaves_insertPath {value : Value} (hvalue : IsLeaf value) {path : List String}
    (hpath : path ≠ []) {schema : Schema} {leaf : List String × Value}
    (h : leaf ∈ fieldLeaves (Schema.insertPath value path schema)) :
    leaf = (path, value) ∨ leaf ∈ fieldLeaves schema := by
  induction path generalizing schema leaf with
  | nil => exact absurd rfl hpath
  | cons key names ih =>
    by_cases hnames : names = []
    · subst hnames
      obtain ⟨field, hfield, inner, hinner, rfl⟩ := mem_fieldLeaves.1 h
      rcases Fields.mem_insert hfield with rfl | hold
      · rw [hvalue] at hinner
        obtain rfl := List.mem_singleton.1 hinner
        exact .inl rfl
      · exact .inr (mem_fieldLeaves.2 ⟨field, hold, inner, hinner, rfl⟩)
    -- the leaves below the key are those of the object there with the entry put in
    · rw [insertPath_below value key hnames] at h
      obtain ⟨field, hfield, inner, hinner, rfl⟩ := mem_fieldLeaves.1 h
      rcases Fields.mem_insert hfield with rfl | hold
      · have hne := insertPath_ne_nil value hnames (schema.below key)
        rw [valueLeaves_object hne] at hinner
        rcases ih hnames hinner with rfl | hbelow
        · exact .inl rfl
        · exact .inr (mem_fieldLeaves_of_below hbelow)
      · exact .inr (mem_fieldLeaves.2 ⟨field, hold, inner, hinner, rfl⟩)

/-- **No other leaves are built** than the entries, and those that were there. -/
theorem mem_fieldLeaves_applyEntries {entries : List (List String × Value)}
    (hentries : ∀ entry ∈ entries, entry.1 ≠ [] ∧ IsLeaf entry.2) {schema : Schema}
    {leaf : List String × Value} (h : leaf ∈ fieldLeaves (applyEntries schema entries)) :
    leaf ∈ entries ∨ leaf ∈ fieldLeaves schema := by
  induction entries generalizing schema with
  | nil => exact .inr h
  | cons entry entries ih =>
    have hfirst := hentries entry List.mem_cons_self
    rcases ih (fun other hother => hentries other (List.mem_cons_of_mem _ hother)) h with h | h
    · exact .inl (List.mem_cons_of_mem _ h)
    · rcases mem_fieldLeaves_insertPath hfirst.2 hfirst.1 h with rfl | h
      · exact .inl List.mem_cons_self
      · exact .inr h

/-! ### Order -/

/-- The object under a key of an ordered schema is ordered, also if there is none. -/
theorem ordered_below {schema : Schema} (h : (Value.object schema).Ordered) (key : String) :
    (Value.object (schema.below key)).Ordered := by
  rcases schema.below_cases key with hnil | hfield
  · rw [hnil, Value.Ordered, Value.FieldsOrdered]
    exact ⟨List.Pairwise.nil, trivial⟩
  · rw [Value.Ordered, Value.fieldsOrdered_iff] at h
    exact h.2 _ hfield

/-- An ordered value in an ordered schema leaves it ordered. -/
theorem ordered_insert {schema : Schema} (h : (Value.object schema).Ordered) (key : String)
    {value : Value} (hvalue : value.Ordered) :
    (Value.object (Fields.insert key value schema)).Ordered := by
  rw [Value.Ordered, Value.fieldsOrdered_iff] at h ⊢
  refine ⟨h.1.insert key value, fun field hfield => ?_⟩
  rcases Fields.mem_insert hfield with rfl | hold
  · exact hvalue
  · exact h.2 field hold

/-- As `ordered_insert`, at the end of a path. -/
theorem ordered_insertPath {value : Value} (hvalue : value.Ordered) {schema : Schema}
    (h : (Value.object schema).Ordered) (path : List String) :
    (Value.object (Schema.insertPath value path schema)).Ordered := by
  induction path generalizing schema with
  | nil => exact h
  | cons key names ih =>
    by_cases hnames : names = []
    · subst hnames
      exact ordered_insert h key hvalue
    · rw [insertPath_below value key hnames]
      exact ordered_insert h key (ih (ordered_below h key))

/-- **A schema that is built is ordered**, if the values of its entries are. -/
theorem ordered_applyEntries {entries : List (List String × Value)}
    (hentries : ∀ entry ∈ entries, entry.2.Ordered) {schema : Schema}
    (h : (Value.object schema).Ordered) : (Value.object (applyEntries schema entries)).Ordered := by
  induction entries generalizing schema with
  | nil => exact h
  | cons entry entries ih =>
    have hfirst := hentries entry List.mem_cons_self
    exact ih (fun other hother => hentries other (List.mem_cons_of_mem _ hother))
      (ordered_insertPath hfirst h entry.1)

/-! ### Equal leaves -/

/-- The same path, and equal values. -/
def LeavesEqual (leaf other : List String × Value) : Prop :=
  leaf.1 = other.1 ∧ leaf.2.equals other.2 = true

mutual

/-- Equal values have equal leaves, one by one. -/
theorem valueLeaves_equal {value other : Value} (h : value.equals other = true) :
    List.Forall₂ LeavesEqual (valueLeaves value) (valueLeaves other) := by
  cases value with
  | object fields =>
    cases other with
    | object more =>
      rw [Value.equals] at h
      rw [valueLeaves, valueLeaves, ← isEmpty_of_fieldsEqual h]
      split
      · exact .cons ⟨rfl, rfl⟩ .nil
      · exact fieldLeaves_equal h
    | null | bool | number | string | array | call | deferred => exact nomatch h
  | null | bool | number | string | array | call | deferred =>
    -- only an object equals an object
    have hleaf : IsLeaf other := by
      refine isLeaf_of_ne_object ?_
      rintro fields rfl
      exact nomatch h
    rw [hleaf]
    exact .cons ⟨rfl, h⟩ .nil

/-- **Equal schemas have equal leaves**, one by one and at the same paths. -/
theorem fieldLeaves_equal {fields other : List (String × Value)}
    (h : Value.fieldsEqual fields other = true) :
    List.Forall₂ LeavesEqual (fieldLeaves fields) (fieldLeaves other) := by
  cases fields with
  | nil =>
    rcases fieldsEqual_cases h with ⟨-, rfl⟩ | ⟨_, _, _, _, _, _, hcons, -⟩
    · exact .nil
    · exact nomatch hcons
  | cons field rest =>
    rcases fieldsEqual_cases h with
      ⟨hnil, -⟩ | ⟨key, value, more, key', value', rest', hcons, rfl, hfield, hrest⟩
    · exact nomatch hnil
    · obtain ⟨rfl, rfl⟩ := List.cons.inj hcons
      obtain ⟨hkey, hvalue⟩ := Bool.and_eq_true_iff.1 hfield
      obtain rfl : key = key' := eq_of_beq hkey
      rw [fieldLeaves, fieldLeaves]
      refine List.rel_append ?_ (fieldLeaves_equal hrest)
      rw [List.forall₂_map_left_iff, List.forall₂_map_right_iff]
      refine (valueLeaves_equal hvalue).imp ?_
      rintro leaf other ⟨hpath, hequal⟩
      exact ⟨congrArg (key :: ·) hpath, hequal⟩

end

/-- A leaf of one of two equal schemas equals one of the other. -/
theorem exists_equal_leaf {fields other : List (String × Value)}
    (h : Value.fieldsEqual fields other = true) {leaf : List String × Value}
    (hleaf : leaf ∈ fieldLeaves other) : ∃ same ∈ fieldLeaves fields, LeavesEqual same leaf := by
  obtain ⟨hlength, hequal⟩ := List.forall₂_iff_get.1 (fieldLeaves_equal h)
  obtain ⟨i, hi, rfl⟩ := List.mem_iff_getElem.1 hleaf
  have hi' : i < (fieldLeaves fields).length := hlength ▸ hi
  exact ⟨_, List.getElem_mem hi', hequal i hi' hi⟩

/-! ### Kept leaves -/

section Kept

variable {keep : Value → Option Value}

theorem keptEntry_nil (value : Value) :
    keptEntry keep ([], value) = (keep value).map fun kept => ([], kept) :=
  if_pos fun _ hname => absurd hname List.not_mem_nil

/-- What is kept of a leaf is a leaf. -/
theorem leaves_of_kept (hleaf : ∀ value kept, keep value = some kept → IsLeaf kept)
    (value : Value) :
    (keep value).toList.flatMap valueLeaves = [([], value)].filterMap (keptEntry keep) := by
  rw [List.filterMap_cons, keptEntry_nil]
  cases hkeep : keep value with
  | none => rfl
  | some kept =>
    rw [Option.toList_some, List.flatMap_singleton, hleaf value kept hkeep]
    rfl

mutual

/-- What is kept of a value has the kept leaves. -/
theorem valueLeaves_keepLeaves (hobject : ∀ fields, keep (.object fields) = none)
    (hleaf : ∀ value kept, keep value = some kept → IsLeaf kept) (value : Value) :
    (keepLeaves keep value).toList.flatMap valueLeaves =
      (valueLeaves value).filterMap (keptEntry keep) := by
  cases value with
  | object fields =>
    have hfields := fieldLeaves_keepFieldLeaves hobject hleaf fields
    rw [keepLeaves]
    by_cases hempty : fields = []
    · subst hempty
      rw [keepFieldLeaves, valueLeaves]
      have hnone : keptEntry keep ([], .object []) = none := by
        rw [keptEntry, hobject]
        exact ite_self _
      rw [if_pos (by rfl), if_pos (by rfl), List.filterMap_cons_none hnone]
      rfl
    · rw [valueLeaves_object hempty, ← hfields]
      by_cases hkept : keepFieldLeaves keep fields = []
      · rw [hkept, if_pos (by rfl)]
        rfl
      · rw [if_neg (by simpa using hkept), Option.toList_some, List.flatMap_singleton,
          valueLeaves_object hkept]
  | null | bool | number | string | array | call | deferred =>
    rw [keepLeaves, valueLeaves]
    · exact leaves_of_kept hleaf _
    all_goals exact nofun

/-- What is kept of a schema has the kept leaves. -/
theorem fieldLeaves_keepFieldLeaves (hobject : ∀ fields, keep (.object fields) = none)
    (hleaf : ∀ value kept, keep value = some kept → IsLeaf kept)
    (fields : List (String × Value)) :
    fieldLeaves (keepFieldLeaves keep fields) =
      (fieldLeaves fields).filterMap (keptEntry keep) := by
  cases fields with
  | nil => rfl
  | cons field rest =>
    obtain ⟨key, value⟩ := field
    have hvalue := valueLeaves_keepLeaves hobject hleaf value
    have hrest := fieldLeaves_keepFieldLeaves hobject hleaf rest
    rw [keepFieldLeaves, fieldLeaves_append, hrest, fieldLeaves, List.filterMap_append,
      filterMap_below, ← hvalue]
    refine congrArg (· ++ _) ?_
    split
    · cases keepLeaves keep value with
      | none => rfl
      | some kept =>
        rw [Option.map_some, Option.toList_some, Option.toList_some, List.flatMap_singleton,
          fieldLeaves, fieldLeaves, List.append_nil]
        rfl
    · rfl

end

/-- A leaf that is kept below a key is kept by itself, and the key is a path segment. -/
theorem keptEntry_below_eq_some {key : String} {leaf : List String × Value}
    (h : keptEntry keep (key :: leaf.1, leaf.2) = some (key :: leaf.1, leaf.2)) :
    IsPathSegment key ∧ keptEntry keep leaf = some leaf := by
  rw [keptEntry_below] at h
  split at h
  · next hkey =>
    obtain ⟨kept, hkept, heq⟩ := Option.map_eq_some_iff.1 h
    obtain ⟨hpath, hvalue⟩ := Prod.mk.inj heq
    refine ⟨hkey, hkept.trans (congrArg some ?_)⟩
    exact Prod.ext (List.cons.inj hpath).2 hvalue
  · exact nomatch h

/-- A leaf that is kept as an entry is kept as a value. -/
theorem keep_of_isLeaf {value : Value} (hvalue : IsLeaf value)
    (h : ∀ leaf ∈ valueLeaves value, keptEntry keep leaf = some leaf) :
    keep value = some value := by
  rw [hvalue] at h
  have hleaf := h _ List.mem_cons_self
  rw [keptEntry_nil] at hleaf
  obtain ⟨kept, hkept, heq⟩ := Option.map_eq_some_iff.1 hleaf
  rw [hkept, (Prod.mk.inj heq).2]

mutual

/-- A value of which every leaf is kept is kept as it is. -/
theorem keepLeaves_of_leaves (hobject : ∀ fields, keep (.object fields) = none) {value : Value}
    (h : ∀ leaf ∈ valueLeaves value, keptEntry keep leaf = some leaf) :
    keepLeaves keep value = some value := by
  cases value with
  | object fields =>
    by_cases hempty : fields = []
    · subst hempty
      have hleaf := h ([], .object []) List.mem_cons_self
      rw [keptEntry, hobject, Option.map_none, ite_self] at hleaf
      exact nomatch hleaf
    · rw [valueLeaves_object hempty] at h
      rw [keepLeaves, keepFieldLeaves_of_leaves hobject h, if_neg (by simpa using hempty)]
  | null | bool | number | string | array | call | deferred =>
    rw [keepLeaves]
    · exact keep_of_isLeaf rfl h
    · exact nofun

/-- A schema of which every leaf is kept is kept as it is. -/
theorem keepFieldLeaves_of_leaves (hobject : ∀ fields, keep (.object fields) = none)
    {fields : List (String × Value)}
    (h : ∀ leaf ∈ fieldLeaves fields, keptEntry keep leaf = some leaf) :
    keepFieldLeaves keep fields = fields := by
  cases fields with
  | nil => rw [keepFieldLeaves]
  | cons field rest =>
    obtain ⟨key, value⟩ := field
    rw [fieldLeaves, List.forall_mem_append, List.forall_mem_map] at h
    obtain ⟨hbelow, hrest⟩ := h
    -- every value has a leaf, and this one says that the key is a segment
    obtain ⟨first, hmem⟩ := List.exists_mem_of_ne_nil _ (valueLeaves_ne_nil value)
    have hkey := (keptEntry_below_eq_some (hbelow first hmem)).1
    have hvalue := keepLeaves_of_leaves hobject fun leaf hleaf =>
      (keptEntry_below_eq_some (hbelow leaf hleaf)).2
    rw [keepFieldLeaves, if_pos hkey, hvalue, keepFieldLeaves_of_leaves hobject hrest]
    rfl

end

end Kept

end ChartSchema
