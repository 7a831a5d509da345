import Mathlib.Data.List.Sort
import ChartSchema.Value

/-!
# Fields by look-up

The fields of an object are kept as a list in increasing order of their names. Two such lists with
the same look-ups are equal (`Ordered.ext`): a look-up says which pairs are members, and a list in
strict order is determined by its members. Hence an equation between objects is proved by comparing
look-ups under every name, and an operation on fields is described by what it does to look-ups:

* `get?_filter` for fields selected by their names, `get?_modify` for a field changed in place;
* `Ordered.insert_of_get?`: putting back what is there changes nothing;
* `get?_ofList_append` for fields collected from a list, where the later of two pairs with one name
  counts. If no name has two values nothing is lost (`mem_ofList_iff`), and a list that is ordered
  already is collected as it is (`Ordered.ofList_eq`).

Each of the operations keeps the order, which the lemmas beside it say.

The order of a JSON value or of a property value means the order of every object inside it. It is
passed on to the items and the fields (`Json.Ordered.item`, `Json.Ordered.field` and their
counterparts for `Value`), and for JSON it is decidable, so that a closed example is checked by
evaluation. `Value.induction` and `Value.induction_inside` are the two inductions over values that
later modules use; they differ in whether the arguments of a call count as parts.
-/

namespace ChartSchema

namespace Fields

variable {α : Type} {key : String} {value : α} {fields : Fields α}

/-! ### Ordered fields -/

/-- A field of ordered fields is found under its name. -/
theorem Ordered.get?_eq_some_iff (h : Ordered fields) :
    get? key fields = some value ↔ (key, value) ∈ fields := by
  induction fields with
  | nil => simp
  | cons field rest ih =>
    obtain ⟨name, first⟩ := field
    obtain ⟨hfirst, hrest⟩ := List.pairwise_cons.1 h
    rw [get?_cons, List.mem_cons]
    by_cases hname : name = key
    · subst hname
      have hnot : (name, value) ∉ rest := fun hmem =>
        String.lt_irrefl name (hfirst (name, value) hmem)
      simp [hnot, eq_comm]
    · have hne : (key, value) ≠ (name, first) := fun heq => hname (congrArg Prod.fst heq).symm
      rw [if_neg hname, ih hrest]
      exact (or_iff_right hne).symm

/-- **Ordered fields are determined by their look-ups.** -/
theorem Ordered.ext {other : Fields α} (h : Ordered fields) (hother : Ordered other)
    (hget : ∀ key, get? key fields = get? key other) : fields = other := by
  have hirrefl : Std.Irrefl fun a b : String × α => a.1 < b.1 := ⟨fun a => String.lt_irrefl a.1⟩
  have hantisymm : Std.Antisymm fun a b : String × α => a.1 < b.1 :=
    ⟨fun _ _ hlt hgt => absurd hgt (String.lt_asymm hlt)⟩
  refine List.Pairwise.eq_of_mem_iff h hother fun field => ?_
  rw [← h.get?_eq_some_iff, ← hother.get?_eq_some_iff, hget]

/-- The name in front is none of the others. -/
theorem Ordered.get?_tail {name : String} {first : α} {rest : List (String × α)}
    (h : Ordered ((name, first) :: rest)) : get? name rest = none := by
  obtain ⟨hfirst, hrest⟩ : (∀ other ∈ rest, name < other.1) ∧ Ordered rest :=
    List.pairwise_cons.1 h
  refine Option.eq_none_iff_forall_ne_some.2 fun other hother => ?_
  exact String.lt_irrefl name (hfirst (name, other) (hrest.get?_eq_some_iff.1 hother))

/-- What is found in ordered fields is the field in front or found among the others, never both. -/
theorem Ordered.get?_cons_eq_some_iff {name : String} {first : α} {rest : List (String × α)}
    (h : Ordered ((name, first) :: rest)) : get? key ((name, first) :: rest) = some value ↔
      name = key ∧ first = value ∨ get? key rest = some value := by
  rw [get?_cons]
  by_cases hname : name = key
  · subst hname
    simp [h.get?_tail]
  · simp [hname]

/-- A selection of ordered fields is ordered. -/
theorem Ordered.filter (h : Ordered fields) (keep : String × α → Bool) :
    Ordered (fields.filter keep) :=
  List.Pairwise.filter keep h

/-- Fields selected by their names. -/
theorem get?_filter (keep : String → Bool) (key : String) (fields : Fields α) :
    get? key (fields.filter fun field => keep field.1) =
      if keep key then get? key fields else none := by
  induction fields with
  | nil => simp
  | cons field rest ih =>
    obtain ⟨name, first⟩ := field
    by_cases hname : name = key
    · subst hname
      by_cases hkeep : keep name
      · simp [hkeep, get?_cons]
      · simp [hkeep, ih]
    · by_cases hkeep : keep name
      · simp [hkeep, get?_cons, hname, ih]
      · simp [hkeep, get?_cons, hname, ih]

/-- Putting back what is there changes nothing. -/
theorem Ordered.insert_of_get? (h : Ordered fields) (hget : get? key fields = some value) :
    Fields.insert key value fields = fields := by
  refine (h.insert key value).ext h fun other => ?_
  rw [get?_insert]
  split
  · next heq => rw [heq, hget]
  · rfl

/-! ### Names -/

/-- Nothing is found exactly under the names that are not there. -/
theorem get?_eq_none_iff : get? key fields = none ↔ key ∉ keys fields := by
  induction fields with
  | nil => simp [keys]
  | cons field rest ih =>
    obtain ⟨name, first⟩ := field
    rw [get?_cons, keys, List.map_cons, List.mem_cons]
    split
    · next hname => simp [hname]
    · next hname => rw [ih, keys, or_iff_right (Ne.symm hname)]

/-- Fields with the same names, of whatever values. -/
theorem exists_get?_of_keys_eq {β : Type} {other : Fields β} (hkeys : keys other = keys fields)
    (hvalue : get? key fields = some value) : ∃ value', get? key other = some value' := by
  refine Option.ne_none_iff_exists'.1 fun hnone => ?_
  rw [get?_eq_none_iff, hkeys, ← get?_eq_none_iff, hvalue] at hnone
  exact Option.some_ne_none _ hnone

/-- The order is a matter of the names alone. -/
theorem Ordered.of_keys_eq {β : Type} {other : Fields β} (h : Ordered fields)
    (hkeys : keys other = keys fields) : Ordered other := by
  have hpairwise : (keys fields).Pairwise (· < ·) := List.pairwise_map.2 h
  rw [← hkeys] at hpairwise
  exact List.pairwise_map.1 hpairwise

/-- Fields with the same ordered names are equal if what stands under each name is. -/
theorem Ordered.eq_of_keys_eq {β : Type} {first second : Fields β} (h : Ordered fields)
    (hfirst : keys first = keys fields) (hsecond : keys second = keys fields)
    (heq : ∀ key value one two, get? key fields = some value → get? key first = some one →
      get? key second = some two → one = two) : first = second := by
  refine (h.of_keys_eq hfirst).ext (h.of_keys_eq hsecond) fun key => ?_
  cases hget : get? key fields with
  | none =>
    rw [get?_eq_none_iff] at hget
    rw [get?_eq_none_iff.2 (hfirst ▸ hget), get?_eq_none_iff.2 (hsecond ▸ hget)]
  | some value =>
    obtain ⟨one, hone⟩ := exists_get?_of_keys_eq hfirst hget
    obtain ⟨two, htwo⟩ := exists_get?_of_keys_eq hsecond hget
    rw [hone, htwo, heq key value one two hget hone htwo]

/-! ### Changed fields -/

/-- Changes the value under a name, if there is one. -/
def modify (name : String) (change : α → α) (fields : Fields α) : Fields α :=
  (get? name fields).elim fields fun value => Fields.insert name (change value) fields

/-- A change is seen under the changed name and nowhere else. -/
theorem get?_modify (name : String) (change : α → α) (key : String) (fields : Fields α) :
    get? key (modify name change fields) =
      if key = name then (get? name fields).map change else get? key fields := by
  rw [modify]
  cases hget : get? name fields with
  | some value => exact get?_insert name key (change value) fields
  | none =>
    by_cases hkey : key = name
    · rw [if_pos hkey, hkey]
      exact hget
    · exact (if_neg hkey).symm

/-- A change keeps the names and with them the order. -/
theorem Ordered.modify (h : Ordered fields) (name : String) (change : α → α) :
    Ordered (Fields.modify name change fields) := by
  rw [Fields.modify]
  cases get? name fields with
  | some value => exact h.insert name (change value)
  | none => exact h

/-! ### Collected fields -/

theorem ordered_foldl_insert (pairs : List (String × α)) (h : Ordered fields) :
    Ordered (pairs.foldl (fun fields pair => Fields.insert pair.1 pair.2 fields) fields) := by
  induction pairs generalizing fields with
  | nil => exact h
  | cons pair rest ih => exact ih (h.insert pair.1 pair.2)

/-- Collected fields are in order, however the list was. -/
theorem ordered_ofList (pairs : List (String × α)) : Ordered (ofList pairs) :=
  ordered_foldl_insert pairs List.Pairwise.nil

/-- **The pairs of a list come before what was there**: the fields count only under names that no
pair has. -/
theorem get?_foldl_insert (pairs : List (String × α)) (key : String) (fields : Fields α) :
    get? key (pairs.foldl (fun fields pair => Fields.insert pair.1 pair.2 fields) fields) =
      (get? key (ofList pairs)).or (get? key fields) := by
  induction pairs generalizing fields with
  | nil => rfl
  | cons pair rest ih =>
    rw [ofList, List.foldl_cons, List.foldl_cons, ih, ih, get?_insert, get?_insert, get?_nil]
    cases get? key (ofList rest) with
    | some found => rfl
    | none => split <;> rfl

@[simp] theorem get?_ofList_nil (key : String) :
    get? key (ofList ([] : List (String × α))) = none := rfl

/-- The later of two pairs with one name counts. -/
@[simp] theorem get?_ofList_append (pairs later : List (String × α)) (key : String) :
    get? key (ofList (pairs ++ later)) =
      (get? key (ofList later)).or (get? key (ofList pairs)) := by
  rw [ofList, List.foldl_append, get?_foldl_insert]
  rfl

@[simp] theorem get?_ofList_cons (name : String) (value : α) (later : List (String × α))
    (key : String) : get? key (ofList ((name, value) :: later)) =
      (get? key (ofList later)).or (if name = key then some value else none) :=
  get?_ofList_append [(name, value)] later key

section Pairs

variable {pairs : List (String × α)}

/-- What is found among collected fields was in the list. -/
theorem mem_of_get?_ofList (h : get? key (ofList pairs) = some value) : (key, value) ∈ pairs := by
  induction pairs with
  | nil => exact nomatch h
  | cons pair later ih =>
    obtain ⟨name, first⟩ := pair
    rw [get?_ofList_cons, Option.or_eq_some_iff] at h
    rcases h with h | ⟨-, h⟩
    · exact List.mem_cons_of_mem _ (ih h)
    · split at h
      · next hname =>
        rw [hname, Option.some.inj h]
        exact List.mem_cons_self
      · exact nomatch h

/-- Under a name that the list has, something is found. -/
theorem exists_get?_ofList (h : (key, value) ∈ pairs) :
    ∃ found, get? key (ofList pairs) = some found := by
  induction pairs with
  | nil => exact absurd h List.not_mem_nil
  | cons pair later ih =>
    rw [get?_ofList_cons]
    rcases List.mem_cons.1 h with rfl | h
    · cases hlater : get? key (ofList later) with
      | none => exact ⟨value, if_pos rfl⟩
      | some found => exact ⟨found, rfl⟩
    · obtain ⟨found, hfound⟩ := ih h
      exact ⟨found, by rw [hfound, Option.some_or]⟩

/-- Pairs with one value for each name are collected without loss. -/
theorem mem_ofList_iff
    (h : ∀ key one two, (key, one) ∈ pairs → (key, two) ∈ pairs → one = two) :
    (key, value) ∈ ofList pairs ↔ (key, value) ∈ pairs := by
  rw [← (ordered_ofList pairs).get?_eq_some_iff]
  refine ⟨mem_of_get?_ofList, fun hmem => ?_⟩
  obtain ⟨found, hfound⟩ := exists_get?_ofList hmem
  rw [hfound, h key found value (mem_of_get?_ofList hfound) hmem]

end Pairs

/-- Ordered fields are collected as they are. -/
theorem Ordered.ofList_eq (h : Ordered fields) : ofList fields = fields := by
  refine (ordered_ofList fields).ext h fun key => ?_
  induction fields with
  | nil => rfl
  | cons field rest ih =>
    obtain ⟨name, first⟩ := field
    have hrest : Ordered rest := List.Pairwise.of_cons h
    rw [get?_ofList_cons, get?_cons, ih hrest]
    split
    · next hname =>
      rw [← hname, h.get?_tail, Option.none_or]
    · rw [Option.or_none]

@[simp] theorem get?_ofList_optionalField (name : String) (value : Option Json) (key : String) :
    get? key (ofList (Json.optionalField name value)) = if name = key then value else none := by
  cases value with
  | none => simp [Json.optionalField, ofList]
  | some value => exact (get?_ofList_cons name value [] key).trans Option.none_or

end Fields

/-! ### Ordered values -/

namespace Json

/-- The recursion over the items of an array, as a statement about its members. -/
theorem itemsOrdered_iff {items : List Json} :
    ItemsOrdered items ↔ ∀ item ∈ items, item.Ordered := by
  induction items with
  | nil => simp [ItemsOrdered]
  | cons item rest ih => rw [ItemsOrdered, ih, List.forall_mem_cons]

/-- The recursion over the fields of an object, as a statement about its members. -/
theorem fieldsOrdered_iff {fields : List (String × Json)} :
    FieldsOrdered fields ↔ ∀ field ∈ fields, field.2.Ordered := by
  induction fields with
  | nil => simp [FieldsOrdered]
  | cons field rest ih =>
    obtain ⟨key, value⟩ := field
    rw [FieldsOrdered, ih, List.forall_mem_cons]

/-- Order is passed on to the items of an array. -/
theorem Ordered.item {items : List Json} (h : (array items).Ordered) {item : Json}
    (hitem : item ∈ items) : item.Ordered := by
  rw [Ordered, itemsOrdered_iff] at h
  exact h item hitem

/-- The fields of an ordered object are in order. -/
theorem Ordered.fields {fields : List (String × Json)} (h : (object fields).Ordered) :
    Fields.Ordered fields := by
  rw [Ordered] at h
  exact h.1

/-- Order is passed on to what stands in a field. -/
theorem Ordered.field {fields : List (String × Json)} (h : (object fields).Ordered) {key : String}
    {value : Json} (hget : Fields.get? key fields = some value) : value.Ordered := by
  have hmem := h.fields.get?_eq_some_iff.1 hget
  rw [Ordered, fieldsOrdered_iff] at h
  exact h.2 _ hmem

/-! ### Deciding the order -/

instance (fields : Fields Json) : Decidable (Fields.Ordered fields) :=
  inferInstanceAs (Decidable (fields.Pairwise fun a b => a.1 < b.1))

mutual

/-- Whether a value is ordered, decided part by part. -/
def decideOrdered : (value : Json) → Decidable value.Ordered
  | .null => isTrue trivial
  | .bool _ => isTrue trivial
  | .number _ => isTrue trivial
  | .string _ => isTrue trivial
  | .array items => decideItemsOrdered items
  | .object fields =>
    have := decideFieldsOrdered fields
    inferInstanceAs (Decidable (Fields.Ordered fields ∧ FieldsOrdered fields))

/-- Whether all items are ordered. -/
def decideItemsOrdered : (items : List Json) → Decidable (ItemsOrdered items)
  | [] => isTrue trivial
  | item :: rest =>
    have := decideOrdered item
    have := decideItemsOrdered rest
    inferInstanceAs (Decidable (item.Ordered ∧ ItemsOrdered rest))

/-- Whether what stands in the fields is ordered, their own order apart. -/
def decideFieldsOrdered : (fields : List (String × Json)) → Decidable (FieldsOrdered fields)
  | [] => isTrue trivial
  | (_, value) :: rest =>
    have := decideOrdered value
    have := decideFieldsOrdered rest
    inferInstanceAs (Decidable (value.Ordered ∧ FieldsOrdered rest))

end

instance (value : Json) : Decidable value.Ordered :=
  value.decideOrdered

end Json

namespace Value

/-- Only a text has a text. -/
theorem string?_eq_some_iff {value : Value} {text : String} :
    value.string? = some text ↔ value = .string text := by
  cases value <;> simp [string?]

/-- Only an array has items. -/
theorem items?_eq_some_iff {value : Value} {items : List Value} :
    value.items? = some items ↔ value = .array items := by
  cases value <;> simp [items?]

/-- Only an object has fields. -/
theorem fields?_eq_some_iff {value : Value} {fields : Schema} :
    value.fields? = some fields ↔ value = .object fields := by
  cases value <;> simp [fields?]

theorem isObject_eq_true_iff {value : Value} :
    value.isObject = true ↔ ∃ fields, value = .object fields := by
  cases value <;> simp [isObject]

/-- A value is no object exactly if it has no fields. -/
theorem isObject_eq_false_iff {value : Value} : value.isObject = false ↔ value.fields? = none := by
  cases value <;> simp [isObject, fields?]

/-- Induction over everything inside a value, what stands in calls included. -/
theorem induction_inside {motive : Value → Prop}
    (array : ∀ items, (∀ item ∈ items, motive item) → motive (.array items))
    (object : ∀ fields, (∀ field ∈ fields, motive field.2) → motive (.object fields))
    (call : ∀ name args, (∀ arg ∈ args, motive arg) → motive (.call name args))
    (null : motive .null) (bool : ∀ value, motive (.bool value))
    (number : ∀ value, motive (.number value)) (string : ∀ text, motive (.string text))
    (deferred : ∀ callback, motive (.deferred callback)) (value : Value) : motive value := by
  refine @Value.rec motive (fun items => ∀ item ∈ items, motive item)
    (fun fields => ∀ field ∈ fields, motive field.2) (fun field => motive field.2)
    null bool number string array object call deferred ?_ ?_ ?_ ?_ ?_ value
  · exact fun _ h => absurd h List.not_mem_nil
  · exact fun item rest hitem hrest => List.forall_mem_cons.2 ⟨hitem, hrest⟩
  · exact fun _ h => absurd h List.not_mem_nil
  · exact fun field rest hfield hrest => List.forall_mem_cons.2 ⟨hfield, hrest⟩
  · exact fun _ _ h => h

/-- Induction over the parts of arrays and objects; what stands in a call is no part of it. -/
theorem induction {motive : Value → Prop}
    (array : ∀ items, (∀ item ∈ items, motive item) → motive (.array items))
    (object : ∀ fields, (∀ field ∈ fields, motive field.2) → motive (.object fields))
    (leaf : ∀ value : Value, value.items? = none → value.fields? = none → motive value)
    (value : Value) : motive value :=
  induction_inside array object (fun _ _ _ => leaf _ rfl rfl) (leaf _ rfl rfl)
    (fun _ => leaf _ rfl rfl) (fun _ => leaf _ rfl rfl) (fun _ => leaf _ rfl rfl)
    (fun _ => leaf _ rfl rfl) value

/-- As `Json.itemsOrdered_iff`, for property values. -/
theorem itemsOrdered_iff {items : List Value} :
    ItemsOrdered items ↔ ∀ item ∈ items, item.Ordered := by
  induction items with
  | nil => simp [ItemsOrdered]
  | cons item rest ih => rw [ItemsOrdered, ih, List.forall_mem_cons]

/-- As `Json.fieldsOrdered_iff`, for property values. -/
theorem fieldsOrdered_iff {fields : List (String × Value)} :
    FieldsOrdered fields ↔ ∀ field ∈ fields, field.2.Ordered := by
  induction fields with
  | nil => simp [FieldsOrdered]
  | cons field rest ih =>
    obtain ⟨key, value⟩ := field
    rw [FieldsOrdered, ih, List.forall_mem_cons]

theorem Ordered.item {items : List Value} (h : (array items).Ordered) {item : Value}
    (hitem : item ∈ items) : item.Ordered := by
  rw [Ordered, itemsOrdered_iff] at h
  exact h item hitem

theorem Ordered.fields {fields : List (String × Value)} (h : (object fields).Ordered) :
    Fields.Ordered fields := by
  rw [Ordered] at h
  exact h.1

theorem Ordered.field {fields : List (String × Value)} (h : (object fields).Ordered) {key : String}
    {value : Value} (hget : Fields.get? key fields = some value) : value.Ordered := by
  have hmem := h.fields.get?_eq_some_iff.1 hget
  rw [Ordered, fieldsOrdered_iff] at h
  exact h.2 _ hmem

end Value

end ChartSchema
