import Mathlib.Data.List.Lex
import ChartSchema.Proofs.Resolution.Inheritance

/-!
# Substitution, place by place

After a schema is merged, its variables are replaced and its callbacks evaluated. `PostProcessed`
says what that makes of every place of the schema and which errors it reports, without following the
traversal: `Rewritten` relates what stands at a place before and after, and `Lists` says that the
errors name the references that are not defined, each once and in the order of their places.

A **place** is a property and the steps that lead on from it, by names and by positions. References
and callbacks count at all places but those inside `map`, and a call as the source that gives no
more than an address counts as that address: `Schema.Holds` says this of the merged schema, so that
`PostProcessed` need not speak of it.

This determines the result (`finish_eq_iff`), because a value with ordered fields is known once it
is known place by place (`Rewrites.unique`), and a list in strict order by its members
(`Lists.unique`). An array and an object stay of their size and names, what becomes of their parts
is said at the places of these, and every other value becomes one value only (`Rewritten.unique`).

The traversal has one theorem for what it makes of a value and one for what it reports. The first,
`rewrites_substitute`, goes along the steps of a place. The second, `lists_substitute`, goes along
the value: the errors of an item or a field are listed below one step (`Lists.below`), and those of
a list are put behind one another (`Lists.append`), where all places of the first part come before
those of the rest. Over a whole schema the properties take the role of the first step
(`lists_finish`).
-/

namespace ChartSchema

/-! ### Places -/

namespace Value

/-- The value one step into a value. What stands in a call cannot be reached. -/
def step? (value : Value) : PathStep → Option Value
  | .key name => value.fields?.bind (Fields.get? name)
  | .index position => value.items?.bind (·[position]?)

/-- The value at the end of some steps. -/
def at? (value : Value) : DataPath → Option Value
  | [] => some value
  | step :: rest => (value.step? step).bind (at? · rest)

theorem at?_cons (value : Value) (step : PathStep) (rest : DataPath) :
    value.at? (step :: rest) = (value.step? step).bind (at? · rest) := rfl

/-- No step leads into a value that is no array and no object. -/
theorem step?_eq_none {value : Value} (hitems : value.items? = none)
    (hfields : value.fields? = none) (step : PathStep) : value.step? step = none := by
  cases step with
  | key name => rw [step?, hfields, Option.bind_none]
  | index position => rw [step?, hitems, Option.bind_none]

/-- A value that is no array and no object has no place but its own. -/
theorem at?_eq_some_iff {value old : Value} (hitems : value.items? = none)
    (hfields : value.fields? = none) {steps : DataPath} :
    value.at? steps = some old ↔ steps = [] ∧ value = old := by
  cases steps with
  | nil => simp [at?]
  | cons step rest => simp [at?, step?_eq_none hitems hfields]

end Value

/-- A place in a schema: the steps that lead there from one of its properties. -/
structure Place where
  property : String
  steps : DataPath

/-- The path of what is one step below a path. -/
def PathStep.below (path : String) : PathStep → String
  | .key name => path ++ "." ++ name
  | .index position => path ++ "[" ++ toString position ++ "]"

/-- The path at the end of some steps, with dots before names and brackets around positions. -/
def pathBelow (path : String) (steps : DataPath) : String :=
  steps.foldl PathStep.below path

/-- The path of a place, as errors name it. -/
def Place.path (place : Place) : String :=
  pathBelow place.property place.steps

/-- The order of two steps out of the same value. -/
inductive PathStep.Before : PathStep → PathStep → Prop where
  | key {name other : String} (h : name < other) : Before (.key name) (.key other)
  | index {position other : Nat} (h : position < other) : Before (.index position) (.index other)

instance : Std.Asymm PathStep.Before where
  asymm := by
    rintro _ _ (h | h) (h' | h')
    · exact String.lt_asymm h h'
    · exact Nat.lt_asymm h h'

/-- The order of the places of a schema: by names, by positions, and by the first step that
differs. -/
def Place.Before (place other : Place) : Prop :=
  place.property < other.property ∨
    place.property = other.property ∧ List.Lex PathStep.Before place.steps other.steps

instance : Std.Asymm Place.Before where
  asymm := by
    rintro ⟨property, steps⟩ ⟨other, more⟩ (h | ⟨rfl, h⟩) (h' | ⟨heq, h'⟩)
    · exact String.lt_asymm h h'
    · exact String.lt_irrefl _ (heq ▸ h)
    · exact String.lt_irrefl _ h'
    · exact Std.Asymm.asymm (r := List.Lex PathStep.Before) _ _ h h'

/-- The value at a place of a schema. -/
def Schema.at? (schema : Schema) (place : Place) : Option Value :=
  (Fields.get? place.property schema).bind (Value.at? · place.steps)

/-- The value at a place where references and callbacks count: anywhere but in the property `map`.
A call as the source that gives no more than an address counts as that address. -/
inductive Schema.Holds (schema : Schema) : Place → Value → Prop where
  | value {place : Place} {value : Value} (hvalue : schema.at? place = some value)
    (hmap : place.property ≠ mapKey)
    (hcall : place = ⟨sourceKey, []⟩ → ∀ name url, value = .call name [.string url] →
      name ≠ "rest" ∧ name ≠ "request") : Holds schema place value
  | address {name url : String}
    (hvalue : schema.at? ⟨sourceKey, []⟩ = some (.call name [.string url]))
    (hname : name = "rest" ∨ name = "request") : Holds schema ⟨sourceKey, []⟩ (.string url)

/-! ### What becomes of a value -/

section Rewriting

variable (theme : Variables) (props : Option Json)

/-- What stands at a place before and after. An array and an object stay one of their size and
names; what becomes of their parts is said at the places of these. -/
inductive Rewritten : Value → Value → Prop where
  | array {items rewritten : List Value} (h : rewritten.length = items.length) :
    Rewritten (.array items) (.array rewritten)
  | object {fields rewritten : Schema} (h : Fields.keys rewritten = Fields.keys fields) :
    Rewritten (.object fields) (.object rewritten)
  | reference {text : String} {value : Value} (hreference : isVariableReference text = true)
    (hdefined : theme.get? text = some value) : Rewritten (.string text) value
  | callback {callback : Callback} {given result : Json} (hprops : props = some given)
    (hresult : callback.invoke given = .ok result) :
    Rewritten (.deferred callback) (.ofJson result)
  | unchanged {value : Value} (hitems : value.items? = none) (hfields : value.fields? = none)
    (hvariable : ∀ text, value = .string text → isVariableReference text = true →
      theme.get? text = none)
    (hcallback : ∀ callback given result, value = .deferred callback → props = some given →
      callback.invoke given ≠ .ok result) : Rewritten value value

/-- A value and what it becomes, place by place. -/
def Rewrites (value rewritten : Value) : Prop :=
  ∀ steps old, value.at? steps = some old →
    ∃ new, rewritten.at? steps = some new ∧ Rewritten theme props old new

end Rewriting

/-! ### Lists of errors -/

/-- The errors say that variables are not found: for every place where a reference is `missing`
one, in the order of the places. -/
def Lists {ι : Type} (before : ι → ι → Prop) (path : ι → String) (missing : ι → String → Prop)
    (errors : List ResolutionError) : Prop :=
  ∃ found : List (ι × String), (found.Pairwise fun a b => before a.1 b.1) ∧
    (∀ place text, (place, text) ∈ found ↔ missing place text) ∧
    errors = found.map fun entry => .variableNotFound entry.2 (path entry.1)

section Lists

variable {ι κ : Type} {before : ι → ι → Prop} {path : ι → String} {missing : ι → String → Prop}
  {errors more : List ResolutionError}

theorem lists_nil (h : ∀ place text, ¬ missing place text) : Lists before path missing [] :=
  ⟨[], List.Pairwise.nil, fun place text => by simp [h], rfl⟩

theorem Lists.congr {other : ι → String → Prop} (h : Lists before path missing errors)
    (heq : ∀ place text, missing place text ↔ other place text) :
    Lists before path other errors := by
  obtain ⟨found, horder, hfound, herrors⟩ := h
  exact ⟨found, horder, fun place text => (hfound place text).trans (heq place text), herrors⟩

/-- Two lists make one if all places of the first come before those of the second. -/
theorem Lists.append {other : ι → String → Prop} (h : Lists before path missing errors)
    (hmore : Lists before path other more)
    (hbefore : ∀ place text, missing place text → ∀ place' text', other place' text' →
      before place place') :
    Lists before path (fun place text => missing place text ∨ other place text)
      (errors ++ more) := by
  obtain ⟨found, horder, hfound, rfl⟩ := h
  obtain ⟨found', horder', hfound', rfl⟩ := hmore
  refine ⟨found ++ found', ?_, fun place text => ?_, List.map_append.symm⟩
  · refine List.pairwise_append.2 ⟨horder, horder', fun a ha b hb => ?_⟩
    exact hbefore a.1 a.2 ((hfound a.1 a.2).1 ha) b.1 b.2 ((hfound' b.1 b.2).1 hb)
  · rw [List.mem_append, hfound, hfound']

/-- The same errors, seen from further up. -/
theorem Lists.lift {before' : κ → κ → Prop} {path' : κ → String}
    (h : Lists before path missing errors) (f : ι → κ)
    (hbefore : ∀ a b, before a b → before' (f a) (f b))
    (hpath : ∀ place, path' (f place) = path place) :
    Lists before' path' (fun place text => ∃ inner, place = f inner ∧ missing inner text)
      errors := by
  obtain ⟨found, horder, hfound, rfl⟩ := h
  refine ⟨found.map fun entry => (f entry.1, entry.2), ?_, fun place text => ?_, ?_⟩
  · exact List.pairwise_map.2 (horder.imp fun hab => hbefore _ _ hab)
  · rw [List.mem_map]
    constructor
    · rintro ⟨⟨inner, _⟩, hmem, heq⟩
      obtain ⟨rfl, rfl⟩ := Prod.mk.inj heq
      exact ⟨inner, rfl, (hfound inner _).1 hmem⟩
    · rintro ⟨inner, rfl, hmissing⟩
      exact ⟨(inner, text), (hfound inner text).2 hmissing, rfl⟩
  · rw [List.map_map]
    exact List.map_congr_left fun entry _ => by simp [hpath]

/-- Only one list of errors fits. -/
theorem Lists.unique [Std.Asymm before] (h : Lists before path missing errors)
    (hmore : Lists before path missing more) : errors = more := by
  obtain ⟨found, horder, hfound, rfl⟩ := h
  obtain ⟨found', horder', hfound', rfl⟩ := hmore
  have hirrefl : Std.Irrefl fun a b : ι × String => before a.1 b.1 :=
    ⟨fun a => irrefl_of before a.1⟩
  have hantisymm : Std.Antisymm fun a b : ι × String => before a.1 b.1 :=
    ⟨fun _ _ hab hba => absurd hba (Std.Asymm.asymm _ _ hab)⟩
  have hsame : found = found' :=
    List.Pairwise.eq_of_mem_iff horder horder' fun entry => by rw [hfound, hfound']
  rw [hsame]

end Lists

/-! ### Values -/

section Substitution

variable {theme : Variables} {props : Option Json}

/-- The item at a position is what becomes of the item that was there, at its path. -/
theorem getElem?_substituteItems (path : String) (position : Nat) (items : List Value) (n : Nat) :
    (substituteItems theme props path position items).1[n]? = items[n]?.map fun item =>
      (substitute theme props (PathStep.below path (.index (position + n))) item).1 := by
  induction items generalizing position n with
  | nil => simp [substituteItems]
  | cons item rest ih =>
    cases n with
    | zero => simp [substituteItems, PathStep.below]
    | succ n =>
      have hposition : position + 1 + n = position + (n + 1) := by omega
      rw [substituteItems, List.getElem?_cons_succ, List.getElem?_cons_succ, ih, hposition]

theorem length_substituteItems (path : String) (position : Nat) (items : List Value) :
    (substituteItems theme props path position items).1.length = items.length := by
  induction items generalizing position with
  | nil => rfl
  | cons item rest ih => exact congrArg (· + 1) (ih (position + 1))

/-- The field under a name is what becomes of the field that was there, at its path. -/
theorem get?_substituteFields (path : String) (fields : List (String × Value)) (name : String) :
    Fields.get? name (substituteFields theme props path fields).1 =
      (Fields.get? name fields).map fun value =>
        (substitute theme props (PathStep.below path (.key name)) value).1 := by
  induction fields with
  | nil => rfl
  | cons field rest ih =>
    obtain ⟨key, value⟩ := field
    rw [substituteFields, Fields.get?_cons, Fields.get?_cons, ih]
    split
    · next hkey => rw [hkey]; rfl
    · rfl

theorem keys_substituteFields (path : String) (fields : List (String × Value)) :
    Fields.keys (substituteFields theme props path fields).1 = Fields.keys fields := by
  induction fields with
  | nil => rfl
  | cons field rest ih => exact congrArg (field.1 :: ·) ih

/-- What a value becomes as a whole. -/
theorem rewritten_substitute (path : String) (value : Value) :
    Rewritten theme props value (substitute theme props path value).1 := by
  cases value with
  | array items =>
    rw [substitute]
    exact .array (length_substituteItems path 0 items)
  | object fields =>
    rw [substitute]
    exact .object (keys_substituteFields path fields)
  | string text =>
    rw [substitute]
    split
    · next hreference =>
      split
      · next value hdefined => exact .reference hreference hdefined
      · next hnone =>
        exact .unchanged rfl rfl (fun other hother _ => Value.string.inj hother ▸ hnone)
          (by simp)
    · next hplain =>
      exact .unchanged rfl rfl
        (fun other hother href => absurd (Value.string.inj hother ▸ href) hplain) (by simp)
  | deferred callback =>
    rw [substitute]
    split
    · next result hresult =>
      obtain ⟨given, hprops, hinvoke⟩ := Option.map_eq_some_iff.1 hresult
      exact .callback hprops hinvoke
    · next hfails =>
      refine .unchanged rfl rfl (by simp) fun other given result hother hprops hinvoke => ?_
      obtain rfl := Value.deferred.inj hother
      exact hfails result (by rw [hprops, Option.map_some, hinvoke])
  | null | bool | number | call =>
    rw [substitute]
    · exact .unchanged rfl rfl (by simp) (by simp)
    all_goals simp

/-- **Substitution, place by place.** -/
theorem rewrites_substitute (path : String) (value : Value) :
    Rewrites theme props value (substitute theme props path value).1 := by
  intro steps old hold
  induction steps generalizing path value with
  | nil =>
    obtain rfl := Option.some.inj hold
    exact ⟨_, rfl, rewritten_substitute path value⟩
  | cons step rest ih =>
    rw [Value.at?_cons] at hold
    obtain ⟨inner, hinner, hrest⟩ := Option.bind_eq_some_iff.1 hold
    cases step with
    | key name =>
      obtain ⟨fields, hfields, hget⟩ := Option.bind_eq_some_iff.1 hinner
      obtain rfl := Value.fields?_eq_some_iff.1 hfields
      obtain ⟨new, hnew, hrewritten⟩ := ih (PathStep.below path (.key name)) inner hrest
      refine ⟨new, ?_, hrewritten⟩
      rw [substitute, Value.at?_cons, Value.step?, Value.fields?, Option.bind_some,
        get?_substituteFields, hget]
      exact hnew
    | index position =>
      obtain ⟨items, hitems, hget⟩ := Option.bind_eq_some_iff.1 hinner
      obtain rfl := Value.items?_eq_some_iff.1 hitems
      obtain ⟨new, hnew, hrewritten⟩ := ih (PathStep.below path (.index position)) inner hrest
      refine ⟨new, ?_, hrewritten⟩
      rw [substitute, Value.at?_cons, Value.step?, Value.items?, Option.bind_some,
        getElem?_substituteItems, hget, Nat.zero_add]
      exact hnew

/-! ### Errors of values -/

/-- A reference without a variable stands at the end of the steps. -/
def UndefinedAt (theme : Variables) (value : Value) (steps : DataPath) (text : String) : Prop :=
  value.at? steps = some (.string text) ∧ isVariableReference text = true ∧
    theme.get? text = none

/-- A value that is no array, no object and no undefined reference holds none. -/
theorem not_undefinedAt {value : Value} (hitems : value.items? = none)
    (hfields : value.fields? = none) (hstring : ∀ text, value = .string text →
      isVariableReference text = true → theme.get? text ≠ none) (steps : DataPath)
    (text : String) : ¬ UndefinedAt theme value steps text := by
  rintro ⟨hat, hreference, hnone⟩
  obtain ⟨-, rfl⟩ := (Value.at?_eq_some_iff hitems hfields).1 hat
  exact hstring text rfl hreference hnone

/-- What is undefined in an array is undefined in one of its items. -/
theorem undefinedAt_items {items : List Value} {steps : DataPath} {text : String} :
    UndefinedAt theme (.array items) steps text ↔ ∃ n rest item, steps = .index n :: rest ∧
      items[n]? = some item ∧ UndefinedAt theme item rest text := by
  constructor
  · rintro ⟨hat, hundefined⟩
    rcases steps with _ | ⟨name | n, rest⟩
    · exact absurd (Option.some.inj hat) nofun
    · exact absurd hat (Option.some_ne_none _).symm
    · obtain ⟨item, hitem, hrest⟩ := Option.bind_eq_some_iff.1 hat
      exact ⟨n, rest, item, rfl, hitem, hrest, hundefined⟩
  · rintro ⟨n, rest, item, rfl, hitem, hrest, hundefined⟩
    exact ⟨Option.bind_eq_some_iff.2 ⟨item, hitem, hrest⟩, hundefined⟩

/-- What is undefined in an object is undefined in one of its fields. -/
theorem undefinedAt_fields {fields : Schema} {steps : DataPath} {text : String} :
    UndefinedAt theme (.object fields) steps text ↔ ∃ name rest value,
      steps = .key name :: rest ∧ Fields.get? name fields = some value ∧
        UndefinedAt theme value rest text := by
  constructor
  · rintro ⟨hat, hundefined⟩
    rcases steps with _ | ⟨name | n, rest⟩
    · exact absurd (Option.some.inj hat) nofun
    · obtain ⟨value, hvalue, hrest⟩ := Option.bind_eq_some_iff.1 hat
      exact ⟨name, rest, value, rfl, hvalue, hrest, hundefined⟩
    · exact absurd hat (Option.some_ne_none _).symm
  · rintro ⟨name, rest, value, rfl, hvalue, hrest, hundefined⟩
    exact ⟨Option.bind_eq_some_iff.2 ⟨value, hvalue, hrest⟩, hundefined⟩

/-- What is listed below one step, as seen from above it. -/
theorem Lists.below {missing : DataPath → String → Prop} {path : String} {step : PathStep}
    {errors : List ResolutionError}
    (h : Lists (List.Lex PathStep.Before) (pathBelow (step.below path)) missing errors) :
    Lists (List.Lex PathStep.Before) (pathBelow path)
      (fun steps text => ∃ rest, steps = step :: rest ∧ missing rest text) errors :=
  h.lift (step :: ·) (fun _ _ hab => .cons hab) fun _ => rfl

mutual

/-- **The errors of a value** name its undefined references, in the order of their places. -/
theorem lists_substitute (path : String) (value : Value) (h : value.Ordered) :
    Lists (List.Lex PathStep.Before) (pathBelow path) (UndefinedAt theme value)
      (substitute theme props path value).2 := by
  cases value with
  | string text =>
    rw [substitute]
    split
    · next hreference =>
      split
      · next value hdefined =>
        refine lists_nil (not_undefinedAt rfl rfl fun other hother _ => ?_)
        rw [← Value.string.inj hother, hdefined]
        exact Option.some_ne_none value
      · next hnone =>
        refine ⟨[([], text)], List.pairwise_singleton _ _, fun steps other => ?_, rfl⟩
        rw [List.mem_singleton, UndefinedAt, Value.at?_eq_some_iff rfl rfl]
        constructor
        · rintro ⟨rfl, rfl⟩
          exact ⟨⟨rfl, rfl⟩, hreference, hnone⟩
        · rintro ⟨⟨rfl, htext⟩, -⟩
          rw [Value.string.inj htext]
    · next hplain =>
      exact lists_nil (not_undefinedAt rfl rfl fun other hother href =>
        absurd (Value.string.inj hother ▸ href) hplain)
  | array items =>
    rw [substitute]
    rw [Value.Ordered] at h
    refine (lists_substituteItems path 0 items h).congr fun steps text => ?_
    simp only [Nat.zero_add]
    exact undefinedAt_items.symm
  | object fields =>
    rw [substitute]
    refine (lists_substituteFields path fields ?_ ?_).congr fun steps text =>
      undefinedAt_fields.symm
    · exact h.fields
    · rw [Value.Ordered] at h
      exact h.2
  | deferred callback =>
    rw [substitute]
    split <;> exact lists_nil (not_undefinedAt rfl rfl nofun)
  | null | bool | number | call =>
    rw [substitute]
    · exact lists_nil (not_undefinedAt rfl rfl nofun)
    all_goals exact nofun

/-- The errors of items, the first of them at the given position. -/
theorem lists_substituteItems (path : String) (position : Nat) (items : List Value)
    (h : Value.ItemsOrdered items) :
    Lists (List.Lex PathStep.Before) (pathBelow path) (fun steps text => ∃ n rest item,
        steps = .index (position + n) :: rest ∧ items[n]? = some item ∧
          UndefinedAt theme item rest text)
      (substituteItems theme props path position items).2 := by
  cases items with
  | nil => exact lists_nil (by simp)
  | cons item more =>
    rw [Value.ItemsOrdered] at h
    rw [substituteItems]
    have hfirst := (lists_substitute (PathStep.below path (.index position)) item h.1).below
    have hmore := lists_substituteItems path (position + 1) more h.2
    refine (hfirst.append hmore ?_).congr fun steps text => ?_
    · rintro _ _ ⟨rest, rfl, -⟩ _ _ ⟨n, rest', item', rfl, -⟩
      exact .rel (.index (by omega))
    · constructor
      · rintro (⟨rest, rfl, hundefined⟩ | ⟨n, rest, item', rfl, hitem', hundefined⟩)
        · exact ⟨0, rest, item, rfl, rfl, hundefined⟩
        · exact ⟨n + 1, rest, item', by rw [Nat.add_assoc, Nat.add_comm 1], hitem', hundefined⟩
      · rintro ⟨n, rest, item', rfl, hitem', hundefined⟩
        cases n with
        | zero =>
          obtain rfl := Option.some.inj hitem'
          exact .inl ⟨rest, rfl, hundefined⟩
        | succ n =>
          exact .inr ⟨n, rest, item', by rw [Nat.add_assoc, Nat.add_comm 1], hitem', hundefined⟩

/-- The errors of fields in order. -/
theorem lists_substituteFields (path : String) (fields : List (String × Value))
    (hfields : Fields.Ordered fields) (h : Value.FieldsOrdered fields) :
    Lists (List.Lex PathStep.Before) (pathBelow path) (fun steps text => ∃ name rest value,
        steps = .key name :: rest ∧ Fields.get? name fields = some value ∧
          UndefinedAt theme value rest text)
      (substituteFields theme props path fields).2 := by
  cases fields with
  | nil => exact lists_nil (by simp)
  | cons field more =>
    obtain ⟨key, value⟩ := field
    rw [Value.FieldsOrdered] at h
    obtain ⟨hkey, hordered⟩ : (∀ other ∈ more, key < other.1) ∧ Fields.Ordered more :=
      List.pairwise_cons.1 hfields
    rw [substituteFields]
    have hfirst := (lists_substitute (PathStep.below path (.key key)) value h.1).below
    have hmore := lists_substituteFields path more hordered h.2
    refine (hfirst.append hmore ?_).congr fun steps text => ?_
    · rintro _ _ ⟨rest, rfl, -⟩ _ _ ⟨name, rest', value', rfl, hvalue', -⟩
      exact .rel (.key (hkey (name, value') (hordered.get?_eq_some_iff.1 hvalue')))
    · constructor
      · rintro (⟨rest, rfl, hundefined⟩ | ⟨name, rest, value', rfl, hvalue', hundefined⟩)
        · exact ⟨key, rest, value, rfl, hfields.get?_cons_eq_some_iff.2 (.inl ⟨rfl, rfl⟩),
            hundefined⟩
        · exact ⟨name, rest, value', rfl, hfields.get?_cons_eq_some_iff.2 (.inr hvalue'),
            hundefined⟩
      · rintro ⟨name, rest, value', rfl, hvalue', hundefined⟩
        rcases hfields.get?_cons_eq_some_iff.1 hvalue' with ⟨rfl, rfl⟩ | hmore'
        · exact .inl ⟨rest, rfl, hundefined⟩
        · exact .inr ⟨name, rest, value', rfl, hmore', hundefined⟩

end

/-! ### Only one value fits -/

/-- A data path is no reference. -/
theorem isVariableReference_of_dataPath {text : String} {body : List Char}
    (h : text.toList = '$' :: '.' :: body) : isVariableReference text = false := by
  simp [isVariableReference, isDataPath, h]

/-- A string that is no reference stays as it is. -/
theorem Rewritten.eq_string {text : String} {new : Value}
    (htext : isVariableReference text = false) (h : Rewritten theme props (.string text) new) :
    new = .string text := by
  cases h with
  | reference hreference =>
    rw [htext] at hreference
    exact absurd hreference Bool.false_ne_true
  | unchanged => rfl

/-- What stands at a place without parts becomes one value only. -/
theorem Rewritten.unique {value new other : Value} (hitems : value.items? = none)
    (hfields : value.fields? = none) (h : Rewritten theme props value new)
    (hother : Rewritten theme props value other) : new = other := by
  cases h with
  | array => exact absurd hitems (Option.some_ne_none _)
  | object => exact absurd hfields (Option.some_ne_none _)
  | reference hreference hdefined =>
    cases hother with
    | reference _ hdefined' => exact Option.some.inj (hdefined.symm.trans hdefined')
    | unchanged _ _ hvariable _ =>
      rw [hvariable _ rfl hreference] at hdefined
      exact absurd hdefined (Option.some_ne_none _).symm
  | callback hprops hresult =>
    cases hother with
    | callback hprops' hresult' =>
      obtain rfl := Option.some.inj (hprops.symm.trans hprops')
      rw [Except.ok.inj (hresult.symm.trans hresult')]
    | unchanged _ _ _ hcallback => exact absurd hresult (hcallback _ _ _ rfl hprops)
  | unchanged _ _ hvariable hcallback =>
    cases hother with
    | array => exact absurd hitems (Option.some_ne_none _)
    | object => exact absurd hfields (Option.some_ne_none _)
    | reference hreference hdefined =>
      rw [hvariable _ rfl hreference] at hdefined
      exact absurd hdefined (Option.some_ne_none _).symm
    | callback hprops hresult => exact absurd hresult (hcallback _ _ _ rfl hprops)
    | unchanged => rfl

/-- What becomes of a value is told at the place without steps. -/
theorem Rewrites.whole {value new : Value} (h : Rewrites theme props value new) :
    Rewritten theme props value new := by
  obtain ⟨_, hnew, hrewritten⟩ := h [] value rfl
  exact Option.some.inj hnew ▸ hrewritten

theorem Rewrites.array {items : List Value} {new : Value}
    (h : Rewrites theme props (.array items) new) : ∃ rewritten : List Value,
      new = .array rewritten ∧ rewritten.length = items.length := by
  cases h.whole with
  | array hlength => exact ⟨_, rfl, hlength⟩
  | unchanged hitems => exact absurd hitems (Option.some_ne_none _)

theorem Rewrites.object {fields : Schema} {new : Value}
    (h : Rewrites theme props (.object fields) new) : ∃ rewritten : Schema,
      new = .object rewritten ∧ Fields.keys rewritten = Fields.keys fields := by
  cases h.whole with
  | object hkeys => exact ⟨_, rfl, hkeys⟩
  | unchanged _ hfields => exact absurd hfields (Option.some_ne_none _)

/-- What is told of a value place by place is told of each of its parts. -/
theorem Rewrites.step {value new inner inner' : Value} (h : Rewrites theme props value new)
    {step : PathStep} (hinner : value.step? step = some inner)
    (hinner' : new.step? step = some inner') : Rewrites theme props inner inner' := by
  intro steps old hold
  have hat : value.at? (step :: steps) = some old := by
    rw [Value.at?_cons, hinner]
    exact hold
  obtain ⟨result, hresult, hrewritten⟩ := h (step :: steps) old hat
  rw [Value.at?_cons, hinner'] at hresult
  exact ⟨result, hresult, hrewritten⟩

/-- **A value is known once it is known place by place.** -/
theorem Rewrites.unique {value new other : Value} (hordered : value.Ordered)
    (h : Rewrites theme props value new) (hother : Rewrites theme props value other) :
    new = other := by
  induction value using Value.induction generalizing new other with
  | array items ih =>
    obtain ⟨first, rfl, hfirst⟩ := h.array
    obtain ⟨second, rfl, hsecond⟩ := hother.array
    refine congrArg Value.array (List.ext_getElem (hfirst.trans hsecond.symm) fun n h₁ h₂ => ?_)
    have hn : n < items.length := hfirst ▸ h₁
    have hitem : (Value.array items).step? (.index n) = some items[n] :=
      List.getElem?_eq_getElem hn
    exact ih _ (List.getElem_mem hn) (hordered.item (List.getElem_mem hn))
      (h.step hitem (List.getElem?_eq_getElem h₁)) (hother.step hitem (List.getElem?_eq_getElem h₂))
  | object fields ih =>
    obtain ⟨first, rfl, hfirst⟩ := h.object
    obtain ⟨second, rfl, hsecond⟩ := hother.object
    refine congrArg Value.object (hordered.fields.eq_of_keys_eq hfirst hsecond ?_)
    intro key inner one two hget hone htwo
    have hinner : (Value.object fields).step? (.key key) = some inner := hget
    exact ih _ (hordered.fields.get?_eq_some_iff.1 hget) (hordered.field hget)
      (h.step hinner hone) (hother.step hinner htwo)
  | leaf value hitems hfields => exact Rewritten.unique hitems hfields h.whole hother.whole

/-! ### Whole schemas -/

/-- The value of a property as it is looked at. -/
def entered (key : String) (value : Value) : Value :=
  if key = Schema.sourceKey then collapseSource value else value

/-- A call that gives no more than an address, or none such. -/
theorem collapseSource_cases (value : Value) :
    (∃ name url, (name = "rest" ∨ name = "request") ∧ value = .call name [.string url] ∧
      collapseSource value = .string url) ∨
    ((∀ name url, value = .call name [.string url] → name ≠ "rest" ∧ name ≠ "request") ∧
      collapseSource value = value) := by
  rw [collapseSource.eq_def]
  split
  · next name url =>
    by_cases hname : name ∈ plainCalls
    · rw [if_pos hname]
      rw [plainCalls, List.mem_pair] at hname
      exact .inl ⟨name, url, hname, rfl, rfl⟩
    · rw [if_neg hname]
      rw [plainCalls, List.mem_pair, not_or] at hname
      refine .inr ⟨fun other more heq => ?_, rfl⟩
      obtain ⟨rfl, -⟩ := Value.call.inj heq
      exact hname
  · next hnone => exact .inr ⟨fun name url heq => absurd heq (hnone name url), rfl⟩

/-- What counts at a place is what stands in the property as it is looked at. -/
theorem Schema.holds_iff {schema : Schema} {place : Place} {old : Value} :
    schema.Holds place old ↔ place.property ≠ mapKey ∧ ∃ value,
      Fields.get? place.property schema = some value ∧
        (entered place.property value).at? place.steps = some old := by
  obtain ⟨property, steps⟩ := place
  constructor
  · rintro (⟨hvalue, hmap, hcall⟩ | ⟨hvalue, hname⟩)
    · obtain ⟨value, hget, hat⟩ := Option.bind_eq_some_iff.1 hvalue
      refine ⟨hmap, value, hget, ?_⟩
      rw [entered]
      split
      · next hsource =>
        rcases collapseSource_cases value with ⟨name, url, hname, rfl, -⟩ | ⟨-, hsame⟩
        -- a plain call is looked at as its address, but it has been ruled out
        · obtain ⟨rfl, rfl⟩ := (Value.at?_eq_some_iff rfl rfl).1 hat
          have hother := hcall (by rw [show property = sourceKey from hsource]) name url rfl
          exact (hname.elim hother.1 hother.2).elim
        · rw [hsame]
          exact hat
      · exact hat
    · obtain ⟨value, hget, hat⟩ := Option.bind_eq_some_iff.1 hvalue
      obtain rfl := Option.some.inj hat
      refine ⟨by decide, _, hget, ?_⟩
      have hplain : _ ∈ plainCalls := List.mem_pair.2 hname
      rw [entered, if_pos rfl, collapseSource, if_pos hplain]
      rfl
  · rintro ⟨hmap, value, hget, hat⟩
    rw [entered] at hat
    split at hat
    · next hsource =>
      obtain rfl : property = sourceKey := hsource
      rcases collapseSource_cases value with ⟨name, url, hname, rfl, haddress⟩ | ⟨hother, hsame⟩
      · rw [haddress] at hat
        obtain ⟨rfl, rfl⟩ := (Value.at?_eq_some_iff rfl rfl).1 hat
        exact .address (Option.bind_eq_some_iff.2 ⟨_, hget, rfl⟩) hname
      · rw [hsame] at hat
        refine .value (Option.bind_eq_some_iff.2 ⟨value, hget, hat⟩) hmap ?_
        intro hplace name url hcall
        obtain ⟨-, rfl⟩ := Place.mk.inj hplace
        obtain rfl := Option.some.inj hat
        exact hother name url hcall
    · next hsource =>
      refine .value (Option.bind_eq_some_iff.2 ⟨value, hget, hat⟩) hmap fun hplace => ?_
      exact absurd (congrArg Place.property hplace) hsource

variable (theme props)

/-- What becomes of a merged schema, and what is reported. -/
structure PostProcessed (merged rewritten : Schema) (errors : List ResolutionError) : Prop where
  keys : Fields.keys rewritten = Fields.keys merged
  map : Fields.get? Schema.mapKey rewritten = Fields.get? Schema.mapKey merged
  places : ∀ place old, merged.Holds place old →
    ∃ new, rewritten.at? place = some new ∧ Rewritten theme props old new
  /-- No data path is changed. -/
  dataPaths : ∀ place text body, text.toList = '$' :: '.' :: body →
    merged.Holds place (.string text) → rewritten.at? place = some (.string text)
  /-- One error for every reference without a variable, in the order of their places. -/
  errors : Lists Place.Before Place.path (fun place text => merged.Holds place (.string text) ∧
    isVariableReference text = true ∧ theme.get? text = none) errors

variable {theme props}

theorem finish_cons (key : String) (value : Value) (rest : List (String × Value)) :
    finish theme props ((key, value) :: rest) =
      ((key, if key = Schema.mapKey then value
        else (substitute theme props key (entered key value)).1) :: (finish theme props rest).1,
       (if key = Schema.mapKey then []
        else (substitute theme props key (entered key value)).2) ++
          (finish theme props rest).2) := by
  rw [finish, entered]
  by_cases hmap : key = Schema.mapKey
  · rw [if_pos hmap, if_pos hmap, if_pos hmap]
  · rw [if_neg hmap, if_neg hmap, if_neg hmap]
    by_cases hsource : key = Schema.sourceKey
    · rw [if_pos hsource, if_pos hsource]
    · rw [if_neg hsource, if_neg hsource]

theorem get?_finish (fields : List (String × Value)) (key : String) :
    Fields.get? key (finish theme props fields).1 = (Fields.get? key fields).map fun value =>
      if key = Schema.mapKey then value
      else (substitute theme props key (entered key value)).1 := by
  induction fields with
  | nil => rfl
  | cons field rest ih =>
    obtain ⟨name, value⟩ := field
    rw [finish_cons, Fields.get?_cons, Fields.get?_cons, ih]
    by_cases hname : name = key
    · subst hname
      rw [if_pos rfl, if_pos rfl, Option.map_some]
    · rw [if_neg hname, if_neg hname]

/-- An address in place of a plain call is ordered, as every value that stays is. -/
theorem ordered_entered {value : Value} (h : value.Ordered) (key : String) :
    (entered key value).Ordered := by
  rw [entered]
  split
  · rcases collapseSource_cases value with ⟨name, url, -, -, haddress⟩ | ⟨-, hsame⟩
    · rw [haddress]
      exact trivial
    · rw [hsame]
      exact h
  · exact h

/-- The errors of a schema name the undefined references of its properties, those of each under its
name. -/
theorem lists_finish {fields : List (String × Value)} (hfields : Fields.Ordered fields)
    (h : Value.FieldsOrdered fields) :
    Lists Place.Before Place.path (fun place text => place.property ≠ Schema.mapKey ∧ ∃ value,
        Fields.get? place.property fields = some value ∧
          UndefinedAt theme (entered place.property value) place.steps text)
      (finish theme props fields).2 := by
  induction fields with
  | nil => exact lists_nil (by simp)
  | cons field rest ih =>
    obtain ⟨key, value⟩ := field
    rw [Value.FieldsOrdered] at h
    obtain ⟨hkey, hordered⟩ : (∀ other ∈ rest, key < other.1) ∧ Fields.Ordered rest :=
      List.pairwise_cons.1 hfields
    -- the first property lists what is below it, unless it is the map
    have hfirst : Lists Place.Before Place.path (fun place text => ∃ steps,
        place = ⟨key, steps⟩ ∧ key ≠ Schema.mapKey ∧
          UndefinedAt theme (entered key value) steps text)
        (if key = Schema.mapKey then []
          else (substitute theme props key (entered key value)).2) := by
      split
      · next hmap => exact lists_nil (by simp [hmap])
      · next hmap =>
        refine ((lists_substitute key _ (ordered_entered h.1 key)).lift (Place.mk key ·)
          (fun _ _ hab => .inr ⟨rfl, hab⟩) fun _ => rfl).congr fun place text => ?_
        simp [hmap]
    rw [finish_cons]
    refine (hfirst.append (ih hordered h.2) ?_).congr fun place text => ?_
    · rintro _ _ ⟨steps, rfl, -⟩ place' _ ⟨-, value', hvalue', -⟩
      exact .inl (hkey (place'.property, value') (hordered.get?_eq_some_iff.1 hvalue'))
    · constructor
      · rintro (⟨steps, rfl, hmap, hundefined⟩ | ⟨hmap, value', hvalue', hundefined⟩)
        · exact ⟨hmap, value, hfields.get?_cons_eq_some_iff.2 (.inl ⟨rfl, rfl⟩), hundefined⟩
        · exact ⟨hmap, value', hfields.get?_cons_eq_some_iff.2 (.inr hvalue'), hundefined⟩
      · rintro ⟨hmap, value', hvalue', hundefined⟩
        rcases hfields.get?_cons_eq_some_iff.1 hvalue' with ⟨rfl, rfl⟩ | hmore
        · exact .inl ⟨place.steps, rfl, hmap, hundefined⟩
        · exact .inr ⟨hmap, value', hmore, hundefined⟩

/-- What a schema becomes and what is reported when it is finished. -/
theorem postProcessed_finish {merged : Schema} (h : (Value.object merged).Ordered) :
    PostProcessed theme props merged (finish theme props merged).1
      (finish theme props merged).2 := by
  have hplaces (place : Place) (old : Value) (hold : merged.Holds place old) : ∃ new,
      Schema.at? (finish theme props merged).1 place = some new ∧
        Rewritten theme props old new := by
    obtain ⟨hmap, value, hvalue, hat⟩ := Schema.holds_iff.1 hold
    obtain ⟨new, hnew, hrewritten⟩ :=
      rewrites_substitute place.property (entered place.property value) place.steps old hat
    refine ⟨new, ?_, hrewritten⟩
    rw [Schema.at?, get?_finish, hvalue, Option.map_some, if_neg hmap]
    exact hnew
  refine ⟨keys_finish theme props merged, ?_, hplaces, ?_, ?_⟩
  · rw [get?_finish]
    cases Fields.get? Schema.mapKey merged with
    | none => rfl
    | some value => exact congrArg some (if_pos rfl)
  · intro place text body hbody hold
    obtain ⟨new, hnew, hrewritten⟩ := hplaces place (.string text) hold
    rw [hnew, hrewritten.eq_string (isVariableReference_of_dataPath hbody)]
  · rw [Value.Ordered] at h
    refine (lists_finish h.1 h.2).congr fun place text => ?_
    rw [Schema.holds_iff]
    constructor
    · rintro ⟨hmap, value, hvalue, hat, hundefined⟩
      exact ⟨⟨hmap, value, hvalue, hat⟩, hundefined⟩
    · rintro ⟨⟨hmap, value, hvalue, hat⟩, hundefined⟩
      exact ⟨hmap, value, hvalue, hat, hundefined⟩

/-- What a property becomes, place by place. -/
theorem PostProcessed.rewrites {merged rewritten : Schema} {errors : List ResolutionError}
    (h : PostProcessed theme props merged rewritten errors) {key : String}
    (hmap : key ≠ Schema.mapKey) {value new : Value} (hvalue : Fields.get? key merged = some value)
    (hnew : Fields.get? key rewritten = some new) :
    Rewrites theme props (entered key value) new := by
  intro steps old hold
  obtain ⟨result, hresult, hrewritten⟩ :=
    h.places ⟨key, steps⟩ old (Schema.holds_iff.2 ⟨hmap, value, hvalue, hold⟩)
  rw [Schema.at?, hnew] at hresult
  exact ⟨result, hresult, hrewritten⟩

/-- Only one schema and one list of errors fit. -/
theorem PostProcessed.unique {merged rewritten other : Schema}
    {errors more : List ResolutionError} (hordered : (Value.object merged).Ordered)
    (h : PostProcessed theme props merged rewritten errors)
    (hother : PostProcessed theme props merged other more) :
    rewritten = other ∧ errors = more := by
  refine ⟨hordered.fields.eq_of_keys_eq h.keys hother.keys ?_, h.errors.unique hother.errors⟩
  intro key value one two hget hone htwo
  by_cases hmap : key = Schema.mapKey
  · rw [hmap, h.map] at hone
    rw [hmap, hother.map, hone] at htwo
    exact Option.some.inj htwo
  · exact Rewrites.unique (ordered_entered (hordered.field hget) key)
      (h.rewrites hmap hget hone) (hother.rewrites hmap hget htwo)

/-- **What becomes of a merged schema is told place by place**, and the errors by the references
that are not defined. -/
theorem finish_eq_iff (theme : Variables) (props : Option Json) {merged : Schema}
    (h : (Value.object merged).Ordered) (rewritten : Schema) (errors : List ResolutionError) :
    finish theme props merged = (rewritten, errors) ↔
      PostProcessed theme props merged rewritten errors := by
  constructor
  · intro hfinish
    have hprocessed := @postProcessed_finish theme props merged h
    rw [hfinish] at hprocessed
    exact hprocessed
  · intro hprocessed
    obtain ⟨hschema, herrors⟩ := (postProcessed_finish h).unique h hprocessed
    exact Prod.ext hschema herrors

end Substitution

/-- A reference that is not defined in an array beside one inside `map`, a data path, a callback,
and a plain call whose address is a reference: what that stands for is not looked up again. -/
theorem finish_eq_iff_series :
    let callback : Callback := ⟨"true", _, rfl⟩
    let theme : Variables := [("u", .string "$v")]
    let merged : Schema := [("map", .object [("labels", .string "$x")]),
      ("series", .array [.string "$x", .string "$.rows", .deferred callback]),
      ("source", .call "rest" [.string "$u"])]
    let rewritten : Schema := [("map", .object [("labels", .string "$x")]),
      ("series", .array [.string "$x", .string "$.rows", .bool true]), ("source", .string "$v")]
    let errors : List ResolutionError := [.variableNotFound "$x" "series[0]"]
    (Value.object merged).Ordered ∧ finish theme (some .null) merged = (rewritten, errors) ∧
      PostProcessed theme (some .null) merged rewritten errors := by
  intro callback theme merged rewritten errors
  have hordered : (Value.object merged).Ordered := by
    simp only [merged, Value.Ordered, Value.FieldsOrdered, Value.ItemsOrdered, Fields.Ordered]
    decide
  have hfinish : finish theme (some .null) merged = (rewritten, errors) := rfl
  exact ⟨hordered, hfinish, (finish_eq_iff theme (some .null) hordered rewritten errors).1 hfinish⟩

end ChartSchema
