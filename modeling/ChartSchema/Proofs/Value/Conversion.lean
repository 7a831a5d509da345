import ChartSchema.Proofs.Fields.Lookup
import ChartSchema.Proofs.Number.Integers

/-!
# Values through JSON

JSON read as a value and written again is the same JSON exactly if each of its numbers is written as
a value writes it, an integer below `2 ^ 53` or a real number that is no such integer
(`Value.toJson_ofJson_eq_self_iff`). It does not matter that some objects are read as calls, since a
call is written as the object that it was read from (`Value.toJson_ofFields`).

A value written as JSON and read again is equal to what it was exactly if it has finite numbers, no
callback and no object with the two fields of a call (`Value.equals_ofJson_toJson_iff`). Such an
object is written like the call, and what is read is the call.

Both conditions are about all that is inside a value, at any depth, and are defined by recursion
over it with a part for lists and one for fields (`Json.Measured`, `Value.ToldApart`). The theorems
are inductions of the same shape. In the first, one direction needs no assumption on the JSON:
whatever a value writes has numbers of this form (`measured_toJson`), so that JSON which is written
again as it was has such numbers too.

Equality of values is not identity: the two zeros are equal, and `nan` is not equal to itself. A
number comes back up to this equality exactly if it is finite (`equals_ofJson_ofMeasure`), because
integers are written without the sign of zero and what is not finite is written as `null`. For an
object the question is first whether it is read as an object at all. Fields that are equal to those
of a call are such fields (`exists_eq_callFields`), so that this can be told before and after
(`equals_ofFields_iff`).
-/

namespace ChartSchema

/-! ### Numbers -/

/-- A JSON number of the form in which binary64 values are written: an integer if it is one below
`2 ^ 53`, and a real number otherwise. -/
def JsonNumber.IsMeasure : JsonNumber → Prop
  | .integer value _ => value.natAbs < Nat.pow 2 53
  | .real value _ => value.isIntegral = false ∨ Nat.pow 2 53 ≤ value.truncate.natAbs

/-- A number of this form is written again as it was. -/
theorem Json.ofMeasure_toBinary64 {number : JsonNumber} (h : number.IsMeasure) :
    Json.ofMeasure number.toBinary64 = .number number := by
  cases number with
  | integer value inRange =>
    rw [JsonNumber.toBinary64, Json.ofMeasure_ofInt h, Json.ofInt, dif_pos inRange]
  | real value isFinite =>
    rw [JsonNumber.toBinary64, Json.ofMeasure, Binary64.exactInteger?_eq_none_iff.2 h]
    exact dif_pos isFinite

namespace Binary64

theorem isFinite_of_isIntegral {x : Binary64} (h : x.isIntegral = true) : x.isFinite = true := by
  cases x with
  | nan | infinite negative => cases h
  | finite negative units representable => rfl

theorem equals_self {x : Binary64} (h : x.isFinite = true) : x.equals x = true := by
  cases x with
  | nan | infinite negative => cases h
  | finite negative units representable =>
    rw [equals, compare?, Int.compare_eq_eq.2 rfl]
    exact decide_eq_true rfl

end Binary64

/-! ### Every number inside a value -/

namespace Json

mutual

/-- Every number inside the value is of the form in which binary64 values are written. -/
def Measured : Json → Prop
  | .number value => value.IsMeasure
  | .array items => ItemsMeasured items
  | .object fields => FieldsMeasured fields
  | .null | .bool _ | .string _ => True

/-- `Measured` for every item of a list. -/
def ItemsMeasured : List Json → Prop
  | [] => True
  | item :: rest => item.Measured ∧ ItemsMeasured rest

/-- `Measured` for the value of every field. -/
def FieldsMeasured : List (String × Json) → Prop
  | [] => True
  | (_, value) :: rest => value.Measured ∧ FieldsMeasured rest

end

/-- A binary64 value is written in the form in which they are written. -/
theorem measured_ofMeasure (x : Binary64) : (ofMeasure x).Measured := by
  rw [ofMeasure]
  split
  · next value hexact =>
    have hsmall := (Binary64.exactInteger?_eq_some_iff.1 hexact).2.2
    rw [ofInt_of_lt hsmall, Measured]
    exact hsmall
  · next hinexact =>
    rw [ofBinary64]
    split
    · rw [Measured]
      exact Binary64.exactInteger?_eq_none_iff.1 hinexact
    · rw [Measured]
      trivial

end Json

namespace Value

/-! ### The two fields of a call -/

/-- The fields of the object as which a call is written. -/
def callFields (name : String) (args : List Value) : List (String × Value) :=
  [("$call", .string name), ("args", .array args)]

/-- The two fields of a call are read as the call. -/
theorem ofFields_callFields (name : String) (args : List Value) :
    ofFields (callFields name args) = .call name args := by
  rw [callFields, ofFields, if_pos ⟨rfl, rfl⟩]

theorem ofFields_of_ne {fields : List (String × Value)}
    (h : ∀ name args, fields ≠ callFields name args) : ofFields fields = .object fields := by
  rw [ofFields.eq_def]
  split
  · next first name second args =>
    refine if_neg ?_
    rintro ⟨rfl, rfl⟩
    exact h name args rfl
  · rfl

/-- Fields are read as a call exactly if they are the two of one. -/
theorem ofFields_cases (fields : List (String × Value)) :
    (∃ name args, fields = callFields name args ∧ ofFields fields = .call name args) ∨
      (∀ name args, fields ≠ callFields name args) ∧ ofFields fields = .object fields := by
  by_cases hcall : ∃ name args, fields = callFields name args
  · obtain ⟨name, args, rfl⟩ := hcall
    exact .inl ⟨name, args, rfl, ofFields_callFields name args⟩
  · have hnone : ∀ name args, fields ≠ callFields name args :=
      fun name args hfields => hcall ⟨name, args, hfields⟩
    exact .inr ⟨hnone, ofFields_of_ne hnone⟩

/-- A call is written as the object that it was read from. -/
theorem toJson_ofFields (fields : List (String × Value)) :
    (ofFields fields).toJson = .object (fieldsToJson fields) := by
  rcases ofFields_cases fields with ⟨name, args, rfl, hcall⟩ | ⟨_, hobject⟩
  · rw [hcall, toJson, callJson, callFields, fieldsToJson, fieldsToJson, fieldsToJson, toJson,
      toJson]
  · rw [hobject, toJson]

/-! ### JSON read and written again -/

mutual

/-- A value writes all its numbers in this form. -/
theorem measured_toJson : (value : Value) → value.toJson.Measured
  | .null => by rw [toJson, Json.Measured]; trivial
  | .bool _ => by rw [toJson, Json.Measured]; trivial
  | .number value => by rw [toJson]; exact Json.measured_ofMeasure value
  | .string _ => by rw [toJson, Json.Measured]; trivial
  | .array items => by rw [toJson, Json.Measured]; exact itemsMeasured_itemsToJson items
  | .object fields => by rw [toJson, Json.Measured]; exact fieldsMeasured_fieldsToJson fields
  | .call name args => by
    simp only [toJson, callJson, Json.Measured, Json.FieldsMeasured]
    exact ⟨trivial, itemsMeasured_itemsToJson args, trivial⟩
  | .deferred _ => by rw [toJson, Json.Measured]; trivial

theorem itemsMeasured_itemsToJson : (items : List Value) → Json.ItemsMeasured (itemsToJson items)
  | [] => by rw [itemsToJson, Json.ItemsMeasured]; trivial
  | item :: rest => by
    rw [itemsToJson, Json.ItemsMeasured]
    exact ⟨measured_toJson item, itemsMeasured_itemsToJson rest⟩

theorem fieldsMeasured_fieldsToJson :
    (fields : List (String × Value)) → Json.FieldsMeasured (fieldsToJson fields)
  | [] => by rw [fieldsToJson, Json.FieldsMeasured]; trivial
  | (_, value) :: rest => by
    rw [fieldsToJson, Json.FieldsMeasured]
    exact ⟨measured_toJson value, fieldsMeasured_fieldsToJson rest⟩

end

/-- A number of this form is read and written again. -/
theorem toJson_ofJson_number {number : JsonNumber} (h : number.IsMeasure) :
    (ofJson (.number number)).toJson = .number number := by
  rw [ofJson, toJson, Json.ofMeasure_toBinary64 h]

mutual

/-- JSON with numbers of this form only is read and written again. -/
theorem toJson_ofJson : (json : Json) → json.Measured → (ofJson json).toJson = json
  | .null, _ => by rw [ofJson, toJson]
  | .bool _, _ => by rw [ofJson, toJson]
  | .number value, h => by
    rw [Json.Measured] at h
    exact toJson_ofJson_number h
  | .string _, _ => by rw [ofJson, toJson]
  | .array items, h => by
    rw [Json.Measured] at h
    rw [ofJson, toJson, itemsToJson_itemsOfJson items h]
  | .object fields, h => by
    rw [Json.Measured] at h
    rw [ofJson, toJson_ofFields, fieldsToJson_fieldsOfJson fields h]

theorem itemsToJson_itemsOfJson :
    (items : List Json) → Json.ItemsMeasured items → itemsToJson (itemsOfJson items) = items
  | [], _ => by rw [itemsOfJson, itemsToJson]
  | item :: rest, h => by
    rw [Json.ItemsMeasured] at h
    rw [itemsOfJson, itemsToJson, toJson_ofJson item h.1, itemsToJson_itemsOfJson rest h.2]

theorem fieldsToJson_fieldsOfJson : (fields : List (String × Json)) →
    Json.FieldsMeasured fields → fieldsToJson (fieldsOfJson fields) = fields
  | [], _ => by rw [fieldsOfJson, fieldsToJson]
  | (_, value) :: rest, h => by
    rw [Json.FieldsMeasured] at h
    rw [fieldsOfJson, fieldsToJson, toJson_ofJson value h.1, fieldsToJson_fieldsOfJson rest h.2]

end

/-- Fields are written again as they were exactly if their numbers have this form. -/
theorem fieldsToJson_fieldsOfJson_iff {fields : Fields Json} :
    fieldsToJson (fieldsOfJson fields) = fields ↔ Json.FieldsMeasured fields := by
  constructor
  · intro h
    rw [← h]
    exact fieldsMeasured_fieldsToJson (fieldsOfJson fields)
  · exact fieldsToJson_fieldsOfJson fields

/-- **JSON read as a value is written again as it was** exactly if all its numbers, at any depth and
also inside calls, have the form in which values write them. -/
theorem toJson_ofJson_eq_self_iff (json : Json) : (ofJson json).toJson = json ↔ json.Measured := by
  constructor
  · intro h
    rw [← h]
    exact measured_toJson (ofJson json)
  · exact toJson_ofJson json

/-! ### Values written and read again -/

mutual

/-- The value is told apart in its JSON: it has finite numbers, no callback, and no object with the
two fields of a call. -/
def ToldApart : Value → Prop
  | .number value => value.isFinite = true
  | .array items => ItemsToldApart items
  | .object fields => (∀ name args, fields ≠ callFields name args) ∧ FieldsToldApart fields
  | .call _ args => ItemsToldApart args
  | .deferred _ => False
  | .null | .bool _ | .string _ => True

/-- `ToldApart` for every item of a list. -/
def ItemsToldApart : List Value → Prop
  | [] => True
  | item :: rest => item.ToldApart ∧ ItemsToldApart rest

/-- `ToldApart` for the value of every field. -/
def FieldsToldApart : List (String × Value) → Prop
  | [] => True
  | (_, value) :: rest => value.ToldApart ∧ FieldsToldApart rest

end

/-- A number comes back but for the sign of zero; what JSON has no number for does not. -/
theorem equals_ofJson_ofMeasure (x : Binary64) :
    (ofJson (.ofMeasure x)).equals (.number x) = x.isFinite := by
  rw [Json.ofMeasure]
  split
  · next value hexact =>
    obtain ⟨hintegral, -, hsmall⟩ := Binary64.exactInteger?_eq_some_iff.1 hexact
    have hfinite := Binary64.isFinite_of_isIntegral hintegral
    rw [Json.ofInt_of_lt hsmall, ofJson, JsonNumber.toBinary64, equals,
      Binary64.ofInt_of_exactInteger? hexact, Binary64.equals_withoutZeroSign hfinite, hfinite]
  · rw [Json.ofBinary64]
    split
    · next hfinite =>
      rw [ofJson, JsonNumber.toBinary64, equals, Binary64.equals_self hfinite, hfinite]
    · next hinfinite =>
      -- `null` comes back, which is no number
      rw [ofJson, equals, Bool.eq_false_iff.2 hinfinite]
      all_goals
        intros
        contradiction

/-- Fields are equal to others if they have the same names in the same places, and equal values. -/
theorem fieldsEqual_cons_iff {key : String} {value : Value} {rest fields : List (String × Value)} :
    fieldsEqual ((key, value) :: rest) fields = true ↔
      ∃ other others, fields = (key, other) :: others ∧ value.equals other = true ∧
        fieldsEqual rest others = true := by
  cases fields with
  | nil => simp [fieldsEqual]
  | cons field others =>
    obtain ⟨name, other⟩ := field
    simp only [fieldsEqual, Bool.and_eq_true, beq_iff_eq, List.cons.injEq, Prod.mk.injEq]
    constructor
    · rintro ⟨⟨rfl, hvalue⟩, hrest⟩
      exact ⟨other, others, ⟨⟨rfl, rfl⟩, rfl⟩, hvalue, hrest⟩
    · rintro ⟨_, _, ⟨⟨rfl, rfl⟩, rfl⟩, hvalue, hrest⟩
      exact ⟨⟨rfl, hvalue⟩, hrest⟩

/-- Only the fields of a call are equal to such fields. -/
theorem exists_eq_callFields {name : String} {args : List Value} {fields : List (String × Value)}
    (h : fieldsEqual (callFields name args) fields = true) :
    ∃ others, fields = callFields name others := by
  obtain ⟨first, _, rfl, hname, hrest⟩ := fieldsEqual_cons_iff.1 h
  obtain ⟨second, rest, rfl, hargs, hnil⟩ := fieldsEqual_cons_iff.1 hrest
  have hfirst : first = .string name := by
    cases first <;> simp_all [equals]
  have hsecond : ∃ others, second = .array others := by
    cases second <;> simp_all [equals]
  have hend : rest = [] := by
    cases rest <;> simp_all [fieldsEqual]
  obtain ⟨others, rfl⟩ := hsecond
  exact ⟨others, by rw [hfirst, hend, callFields]⟩

/-- An object does not come back if it is written like a call, and neither does one with a field
that does not. -/
theorem equals_ofFields_iff {fields again : List (String × Value)}
    (hcall : ∀ name args, fields = callFields name args →
      ∃ others, again = callFields name others) :
    (ofFields again).equals (.object fields) = true ↔
      (∀ name args, fields ≠ callFields name args) ∧ fieldsEqual again fields = true := by
  rcases ofFields_cases again with ⟨name, args, rfl, hread⟩ | ⟨hnone, hread⟩
  · rw [hread, equals]
    refine iff_of_false Bool.false_ne_true ?_
    rintro ⟨hfields, hequal⟩
    obtain ⟨others, rfl⟩ := exists_eq_callFields hequal
    exact hfields name others rfl
    -- the last case of `equals` applies, since a call is no object
    all_goals
      intros
      contradiction
  · rw [hread, equals]
    refine ⟨fun hequal => ⟨?_, hequal⟩, And.right⟩
    intro name args hfields
    obtain ⟨others, hagain⟩ := hcall name args hfields
    exact hnone name others hagain

/-- The items of a list come back if each of them does. -/
theorem itemsEqual_itemsOfJson {items : List Value}
    (h : ∀ item ∈ items, (ofJson item.toJson).equals item = true ↔ item.ToldApart) :
    itemsEqual (itemsOfJson (itemsToJson items)) items = true ↔ ItemsToldApart items := by
  induction items with
  | nil =>
    rw [itemsToJson, itemsOfJson, itemsEqual, ItemsToldApart]
    exact iff_of_true rfl trivial
  | cons item rest ih =>
    obtain ⟨hitem, hrest⟩ := List.forall_mem_cons.1 h
    rw [itemsToJson, itemsOfJson, itemsEqual, ItemsToldApart, Bool.and_eq_true, hitem, ih hrest]

/-- The fields of an object come back if each of them does. -/
theorem fieldsEqual_fieldsOfJson {fields : List (String × Value)}
    (h : ∀ field ∈ fields, (ofJson field.2.toJson).equals field.2 = true ↔ field.2.ToldApart) :
    fieldsEqual (fieldsOfJson (fieldsToJson fields)) fields = true ↔ FieldsToldApart fields := by
  induction fields with
  | nil =>
    rw [fieldsToJson, fieldsOfJson, fieldsEqual, FieldsToldApart]
    exact iff_of_true rfl trivial
  | cons field rest ih =>
    obtain ⟨key, value⟩ := field
    obtain ⟨hfield, hrest⟩ := List.forall_mem_cons.1 h
    rw [fieldsToJson, fieldsOfJson, fieldsEqual, FieldsToldApart, beq_self_eq_true, Bool.true_and,
      Bool.and_eq_true, hfield, ih hrest]

/-- **A value written as JSON comes back** exactly if its numbers are finite, it has no callback and
no object inside it, also inside the arguments of calls, has just the two fields of a call. -/
theorem equals_ofJson_toJson_iff (value : Value) :
    (ofJson value.toJson).equals value = true ↔ value.ToldApart := by
  induction value using induction_inside with
  | array items ih =>
    rw [toJson, ofJson, equals, ToldApart]
    exact itemsEqual_itemsOfJson ih
  | object fields ih =>
    rw [toJson, ofJson, ToldApart, ← fieldsEqual_fieldsOfJson ih]
    refine equals_ofFields_iff ?_
    rintro name args rfl
    refine ⟨itemsOfJson (itemsToJson args), ?_⟩
    simp only [callFields, fieldsToJson, fieldsOfJson, toJson, ofJson]
  | call name args ih =>
    have hread : ofJson (callJson name (itemsToJson args)) =
        ofFields (callFields name (itemsOfJson (itemsToJson args))) := by
      simp only [callJson, callFields, fieldsOfJson, ofJson]
    rw [toJson, hread, ofFields_callFields, equals, beq_self_eq_true, Bool.true_and, ToldApart]
    exact itemsEqual_itemsOfJson ih
  | null =>
    rw [toJson, ofJson, equals, ToldApart]
    exact iff_of_true rfl trivial
  | bool value =>
    rw [toJson, ofJson, equals, ToldApart]
    exact iff_of_true (beq_self_eq_true value) trivial
  | number value => rw [toJson, equals_ofJson_ofMeasure, ToldApart]
  | string text =>
    rw [toJson, ofJson, equals, ToldApart]
    exact iff_of_true (beq_self_eq_true text) trivial
  | deferred callback =>
    -- the text of the interpolation comes back, and a text is no callback
    rw [toJson, ofJson, equals, ToldApart]
    exact iff_of_false Bool.false_ne_true id
    all_goals
      intros
      contradiction

/-- An object with a text under `$call` and a list under `args` comes back as a call. -/
theorem not_equals_ofJson_toJson :
    FieldsToldApart [("$call", .string "f"), ("args", .array [])] ∧
      (ofJson (object [("$call", .string "f"), ("args", .array [])]).toJson).equals
        (.object [("$call", .string "f"), ("args", .array [])]) = false :=
  ⟨⟨trivial, trivial, trivial⟩, rfl⟩

end Value

end ChartSchema
