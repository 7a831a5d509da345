import ChartSchema.Proofs.Document.Statements

/-!
# Building a schema from its leaves

A schema is printed leaf by leaf, and a document that is read carries out its entries one by one.
The two meet here: carrying out the kept leaves of a schema gives what is kept of the schema
(`applyEntries_fieldLeaves`).

The argument needs the order of the fields. The entries of a printed document come in the order of
the paths, so that each of them puts a new field behind all others or goes on with the last one, and
nothing that has been built is touched again:

* a key above all others goes to the end (`insert_above`), and the key at the end is found and
  replaced there (`get?_last`, `insert_last`);
* entries below one key make one new last field (`applyEntries_below`): the first of them creates
  it, the others go on with its object (`applyEntries_last`);
* what is kept of a single value therefore makes a new last field or nothing
  (`applyEntries_valueLeaves`), and the fields of a schema follow by induction.

`keep` is any choice of what to keep of a leaf. The same argument then serves the leaves that can be
written, with what is read back for them, and any other selection.
-/

namespace ChartSchema

/-! ### The last field -/

namespace Fields

variable {α : Type} {key : String} {fields : Fields α}

/-- A key above all others goes to the end. -/
theorem insert_above (h : ∀ field ∈ fields, field.1 < key) (value : α) :
    insert key value fields = fields ++ [(key, value)] := by
  induction fields with
  | nil => rfl
  | cons field rest ih =>
    obtain ⟨name, old⟩ := field
    have hlt : name < key := h (name, old) List.mem_cons_self
    rw [insert, if_neg (String.lt_asymm hlt), if_neg (String.ne_of_lt hlt),
      ih fun other hother => h other (List.mem_cons_of_mem _ hother), List.cons_append]

/-- The last field is replaced. -/
theorem insert_last (h : ∀ field ∈ fields, field.1 < key) (old value : α) :
    insert key value (fields ++ [(key, old)]) = fields ++ [(key, value)] := by
  induction fields with
  | nil => simp [insert]
  | cons field rest ih =>
    obtain ⟨name, first⟩ := field
    have hlt : name < key := h (name, first) List.mem_cons_self
    rw [List.cons_append, insert, if_neg (String.lt_asymm hlt), if_neg (String.ne_of_lt hlt),
      ih fun other hother => h other (List.mem_cons_of_mem _ hother), List.cons_append]

/-- A key above all others is not there. -/
theorem get?_above (h : ∀ field ∈ fields, field.1 < key) : get? key fields = none := by
  induction fields with
  | nil => rfl
  | cons field rest ih =>
    obtain ⟨name, old⟩ := field
    have hlt : name < key := h (name, old) List.mem_cons_self
    rw [get?_cons, if_neg (String.ne_of_lt hlt)]
    exact ih fun other hother => h other (List.mem_cons_of_mem _ hother)

/-- A key above all others is found where it has been put. -/
theorem get?_last (h : ∀ field ∈ fields, field.1 < key) (value : α) :
    get? key (fields ++ [(key, value)]) = some value := by
  rw [← insert_above h, get?_insert_self]

end Fields

/-! ### Entries below a key -/

/-- A value goes below the first name of a longer path. -/
theorem insertPath_below (value : Value) (key : String) {path : List String} (hpath : path ≠ [])
    (schema : Schema) :
    Schema.insertPath value (key :: path) schema =
      Fields.insert key (.object (Schema.insertPath value path (Schema.below schema key)))
        schema := by
  rw [Schema.insertPath]
  exact hpath

/-- An entry moved below a key. -/
def entryBelow (key : String) (entry : List String × Value) : List String × Value :=
  (key :: entry.1, entry.2)

section Below

variable {key : String} {schema : Schema} (hkeys : ∀ field ∈ schema, field.1 < key)

include hkeys

/-- Entries below the key of the last field go on with its object. -/
theorem applyEntries_last (inner : Schema) {entries : List (List String × Value)}
    (hpaths : ∀ entry ∈ entries, entry.1 ≠ []) :
    applyEntries (schema ++ [(key, .object inner)]) (entries.map (entryBelow key)) =
      schema ++ [(key, .object (applyEntries inner entries))] := by
  induction entries generalizing inner with
  | nil => rfl
  | cons entry entries ih =>
    obtain ⟨path, value⟩ := entry
    have hpath := hpaths (path, value) List.mem_cons_self
    have hbelow : Schema.below (schema ++ [(key, .object inner)]) key = inner := by
      rw [Schema.below, Fields.get?_last hkeys]
      rfl
    have hstep : Schema.insertPath value (key :: path) (schema ++ [(key, .object inner)]) =
        schema ++ [(key, .object (Schema.insertPath value path inner))] := by
      rw [insertPath_below value key hpath, hbelow, Fields.insert_last hkeys]
    rw [List.map_cons, applyEntries, List.foldl_cons, entryBelow]
    simp only [hstep]
    exact ih _ fun other hother => hpaths other (List.mem_cons_of_mem _ hother)

/-- Entries below a key above all others make a new last field. -/
theorem applyEntries_below {entries : List (List String × Value)} (hne : entries ≠ [])
    (hpaths : ∀ entry ∈ entries, entry.1 ≠ []) :
    applyEntries schema (entries.map (entryBelow key)) =
      schema ++ [(key, .object (applyEntries [] entries))] := by
  obtain ⟨⟨path, value⟩, entries, rfl⟩ := List.exists_cons_of_ne_nil hne
  have hpath := hpaths (path, value) List.mem_cons_self
  have hbelow : Schema.below schema key = [] := by
    rw [Schema.below, Fields.get?_above hkeys]
    rfl
  have hstep : Schema.insertPath value (key :: path) schema =
      schema ++ [(key, .object (Schema.insertPath value path []))] := by
    rw [insertPath_below value key hpath, hbelow, Fields.insert_above hkeys]
  rw [List.map_cons, applyEntries, List.foldl_cons, entryBelow]
  simp only [hstep]
  exact applyEntries_last hkeys _ fun other hother => hpaths other (List.mem_cons_of_mem _ hother)

end Below

/-- Something is built from any entry. -/
theorem applyEntries_ne_nil {entries : List (List String × Value)} (hne : entries ≠ [])
    (hpaths : ∀ entry ∈ entries, entry.1 ≠ []) : applyEntries [] entries ≠ [] := by
  have hinsert (key : String) (value : Value) (schema : Schema) :
      Fields.insert key value schema ≠ [] := by
    intro hnil
    have hget := Fields.get?_insert_self key value schema
    rw [hnil] at hget
    exact nomatch hget
  obtain ⟨init, ⟨path, value⟩, rfl⟩ := (List.eq_nil_or_concat' entries).resolve_left hne
  have hpath : path ≠ [] := hpaths (path, value) (List.mem_append_right _ List.mem_cons_self)
  rw [applyEntries, List.foldl_append, List.foldl_cons, List.foldl_nil]
  obtain ⟨key, names, rfl⟩ := List.exists_cons_of_ne_nil hpath
  by_cases hnames : names = []
  · subst hnames
    exact hinsert key value _
  · rw [insertPath_below value key hnames]
    exact hinsert key _ _

/-! ### Kept leaves -/

section Kept

variable (keep : Value → Option Value)

/-- The entry of a leaf that is kept: its names are path segments, and something is kept of its
value. -/
def keptEntry (leaf : List String × Value) : Option (List String × Value) :=
  if ∀ name ∈ leaf.1, IsPathSegment name then (keep leaf.2).map fun kept => (leaf.1, kept)
  else none

/-- A leaf is kept below a key if it is kept and the key is a path segment. -/
theorem keptEntry_below (key : String) (leaf : List String × Value) :
    keptEntry keep (key :: leaf.1, leaf.2) =
      if IsPathSegment key then (keptEntry keep leaf).map (entryBelow key) else none := by
  have hall : (∀ name ∈ key :: leaf.1, IsPathSegment name) ↔
      IsPathSegment key ∧ ∀ name ∈ leaf.1, IsPathSegment name := List.forall_mem_cons
  rw [keptEntry, keptEntry, if_congr hall rfl rfl, ite_and]
  by_cases hkey : IsPathSegment key
  · rw [if_pos hkey, if_pos hkey]
    split
    · cases keep leaf.2 <;> rfl
    · rfl
  · rw [if_neg hkey, if_neg hkey]

/-- The kept entries of the leaves below a key. -/
theorem filterMap_below (key : String) (leaves : List (List String × Value)) :
    (leaves.map fun leaf => (key :: leaf.1, leaf.2)).filterMap (keptEntry keep) =
      if IsPathSegment key then (leaves.filterMap (keptEntry keep)).map (entryBelow key)
      else [] := by
  rw [List.filterMap_map]
  have hcomp : (keptEntry keep ∘ fun leaf => (key :: leaf.1, leaf.2)) = fun leaf =>
      if IsPathSegment key then (keptEntry keep leaf).map (entryBelow key) else none := by
    funext leaf
    exact keptEntry_below keep key leaf
  rw [hcomp]
  by_cases hkey : IsPathSegment key
  · simp only [if_pos hkey, List.map_filterMap]
  · simp only [if_neg hkey, List.filterMap_none]

/-- The path of a leaf of a schema has a name in it. -/
theorem path_ne_nil_of_mem_fieldLeaves {fields : List (String × Value)}
    {leaf : List String × Value} (h : leaf ∈ fieldLeaves fields) : leaf.1 ≠ [] := by
  induction fields with
  | nil =>
    rw [fieldLeaves] at h
    exact absurd h List.not_mem_nil
  | cons field rest ih =>
    rw [fieldLeaves] at h
    rcases List.mem_append.1 h with h | h
    · obtain ⟨inner, -, rfl⟩ := List.mem_map.1 h
      exact List.cons_ne_nil _ _
    · exact ih h

theorem path_ne_nil_of_mem_kept {fields : List (String × Value)} {entry : List String × Value}
    (h : entry ∈ (fieldLeaves fields).filterMap (keptEntry keep)) : entry.1 ≠ [] := by
  obtain ⟨leaf, hleaf, hkept⟩ := List.mem_filterMap.1 h
  rw [keptEntry] at hkept
  split at hkept
  · obtain ⟨kept, -, rfl⟩ := Option.map_eq_some_iff.1 hkept
    exact @path_ne_nil_of_mem_fieldLeaves fields leaf hleaf
  · exact nomatch hkept

/-- The kept entry of a value that is a leaf makes a new last field. -/
theorem applyEntries_leaf {key : String} {schema : Schema} (hkeys : ∀ field ∈ schema, field.1 < key)
    (value : Value) :
    applyEntries schema (([([], value)].filterMap (keptEntry keep)).map (entryBelow key)) =
      schema ++ ((keep value).map fun kept => (key, kept)).toList := by
  have hentry : keptEntry keep ([], value) = (keep value).map fun kept => ([], kept) :=
    if_pos fun name hname => absurd hname List.not_mem_nil
  cases hkeep : keep value with
  | none =>
    rw [hkeep, Option.map_none] at hentry
    rw [List.filterMap_cons_none hentry]
    exact (List.append_nil schema).symm
  | some kept =>
    rw [hkeep, Option.map_some] at hentry
    rw [List.filterMap_cons_some hentry]
    exact Fields.insert_above hkeys kept

variable {keep}

mutual

/-- The kept leaves of a value below a key above all others make a new last field. -/
theorem applyEntries_valueLeaves (hobject : ∀ fields, keep (.object fields) = none) {key : String}
    {schema : Schema} (hkeys : ∀ field ∈ schema, field.1 < key) (value : Value)
    (hordered : value.Ordered) :
    applyEntries schema (((valueLeaves value).filterMap (keptEntry keep)).map (entryBelow key)) =
      schema ++ ((keepLeaves keep value).map fun kept => (key, kept)).toList := by
  cases value with
  | object fields =>
    by_cases hempty : fields = []
    -- an empty object is a leaf, and none that is kept
    · subst hempty
      have hnone : keepLeaves keep (.object []) = none := by
        rw [keepLeaves, keepFieldLeaves]
        exact if_pos rfl
      have hleaf := applyEntries_leaf keep hkeys (.object [])
      rw [hobject] at hleaf
      rw [hnone, valueLeaves]
      exact hleaf
    · rw [Value.Ordered] at hordered
      have hinner := applyEntries_fieldLeaves hobject [] fields
        (fun field hfield => absurd hfield List.not_mem_nil) hordered.1 hordered.2
      rw [List.nil_append] at hinner
      have hpaths := fun entry => @path_ne_nil_of_mem_kept keep fields entry
      rw [valueLeaves, if_neg (by simpa using hempty), keepLeaves, ← hinner]
      generalize (fieldLeaves fields).filterMap (keptEntry keep) = entries at hpaths
      by_cases hentries : entries = []
      · subst hentries
        exact (List.append_nil schema).symm
      · rw [applyEntries_below hkeys hentries hpaths,
          if_neg (by simpa using applyEntries_ne_nil hentries hpaths)]
        rfl
  | null | bool | number | string | array | call | deferred =>
    rw [valueLeaves, keepLeaves]
    · exact applyEntries_leaf keep hkeys _
    · exact nofun
    · exact nofun

/-- **A schema is rebuilt from its kept leaves**, behind fields with smaller keys. -/
theorem applyEntries_fieldLeaves (hobject : ∀ fields, keep (.object fields) = none)
    (schema : Schema) (fields : List (String × Value))
    (hkeys : ∀ field ∈ schema, ∀ other ∈ fields, field.1 < other.1)
    (hordered : Fields.Ordered fields) (hinner : Value.FieldsOrdered fields) :
    applyEntries schema ((fieldLeaves fields).filterMap (keptEntry keep)) =
      schema ++ keepFieldLeaves keep fields := by
  cases fields with
  | nil =>
    rw [fieldLeaves, keepFieldLeaves]
    exact (List.append_nil schema).symm
  | cons field rest =>
    obtain ⟨key, value⟩ := field
    have ⟨hvalue, hrest⟩ : value.Ordered ∧ Value.FieldsOrdered rest := by
      rwa [Value.FieldsOrdered] at hinner
    have ⟨hfirst, hbehind⟩ := List.pairwise_cons.1 hordered
    -- what is kept of the first field is one field or none
    let kept : List (String × Value) :=
      if IsPathSegment key then ((keepLeaves keep value).map fun kept => (key, kept)).toList else []
    have hkept : ∀ field ∈ kept, field.1 = key := by
      intro field hfield
      simp only [kept] at hfield
      split at hfield
      · obtain ⟨value', -, rfl⟩ := Option.map_eq_some_iff.1 (Option.mem_toList.1 hfield)
        rfl
      · exact absurd hfield List.not_mem_nil
    have hone : applyEntries schema (if IsPathSegment key then
        ((valueLeaves value).filterMap (keptEntry keep)).map (entryBelow key) else []) =
        schema ++ kept := by
      simp only [kept]
      split
      · exact applyEntries_valueLeaves hobject
          (fun field hfield => hkeys field hfield (key, value) List.mem_cons_self) value hvalue
      · exact (List.append_nil schema).symm
    have hlonger : ∀ field ∈ schema ++ kept, ∀ other ∈ rest, field.1 < other.1 := by
      intro field hfield other hother
      rcases List.mem_append.1 hfield with hfield | hfield
      · exact hkeys field hfield other (List.mem_cons_of_mem _ hother)
      · rw [hkept field hfield]
        exact hfirst other hother
    -- the other fields go behind it, with larger keys
    have hmore := applyEntries_fieldLeaves hobject (schema ++ kept) rest hlonger hbehind hrest
    rw [fieldLeaves, List.filterMap_append, filterMap_below, applyEntries, List.foldl_append,
      ← applyEntries, ← applyEntries, hone, hmore, keepFieldLeaves, List.append_assoc]

end

end Kept

end ChartSchema
