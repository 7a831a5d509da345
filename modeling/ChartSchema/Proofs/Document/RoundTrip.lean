import ChartSchema.Proofs.Document.Building

/-!
# Printed schemas read back

A schema that is printed and read again comes back as its writable part, up to the sign of zero
(`parse_toDocumentText`). So nothing is lost but what no document can say, and nothing is changed or
added, however the keys and the strings are chosen. Only keys with a line feed are left out, since
they would break out of their comments, and callbacks with unbalanced braces.

The proof has four parts, of which the first three are about one leaf or one value each:

* a schema is printed leaf by leaf (`fieldLines_eq`);
* the line of a leaf spells the entry that is written for it, if there is one, and all lines
  together spell the list of these entries, which the parser gives back without an error;
* what is read back for a value equals the value, and there is something to read back exactly if the
  value is writable (`value_reread`);
* carrying out the entries builds what is kept of the schema, and keeping equal values at the leaves
  gives equal schemas (`keepFieldLeaves_equal`).

Equality of values is a test that computes and not an identity: numbers compare as numbers, and
callbacks by their text. It is followed through the recursion by cases on the fields of both sides
(`fieldsEqual_cases`), and `Agree` carries it through what may be kept or not.
-/

namespace ChartSchema

/-! ### Lines and leaves -/

namespace Printer

mutual

/-- The lines of a value are those of its leaves, below the same path. -/
theorem entryLines_eq (path : List String) (value : Value) :
    entryLines path value =
      (valueLeaves value).flatMap fun leaf => leafLine (path ++ leaf.1) leaf.2 := by
  have hleaf (value : Value) : leafLine path value =
      [(([] : List String), value)].flatMap fun leaf => leafLine (path ++ leaf.1) leaf.2 := by
    simp
  cases value with
  | object fields =>
    rw [entryLines, valueLeaves]
    by_cases hempty : fields.isEmpty = true
    · rw [if_pos hempty, if_pos hempty]
      exact hleaf _
    · rw [if_neg hempty, if_neg hempty]
      exact fieldLines_eq path fields
  | null | bool | number | string | array | call | deferred =>
    rw [entryLines, valueLeaves]
    · exact hleaf _
    · exact nofun
    · exact nofun

/-- The lines are those of the leaves. -/
theorem fieldLines_eq (above : List String) (fields : List (String × Value)) :
    fieldLines above fields =
      (fieldLeaves fields).flatMap fun leaf => leafLine (above ++ leaf.1) leaf.2 := by
  cases fields with
  | nil => rw [fieldLines, fieldLeaves, List.flatMap_nil]
  | cons field rest =>
    obtain ⟨key, value⟩ := field
    rw [fieldLines, fieldLeaves, List.flatMap_append, entryLines_eq (above ++ [key]) value,
      fieldLines_eq above rest, List.flatMap_map]
    simp only [List.append_assoc, List.singleton_append]

end

end Printer

/-! ### Values read back -/

/-- The value that is read back for a value that can be written. -/
def rereadValue? (value : Value) : Option Value :=
  (Written.ofValue? value).map Written.toValue

/-- The expression of a callback compiles again, to a callback with this expression. -/
theorem compile_expression (callback : Callback) :
    ∃ again, Callback.compile callback.expression = .ok again ∧
      again.expression = callback.expression := by
  rw [Callback.compile]
  split
  · exact ⟨_, rfl, rfl⟩
  · next error herror =>
    rw [callback.compiles] at herror
    exact nomatch herror

/-- An argument of a call can be written exactly when it is writable, and what is read back equals
it. -/
theorem argument_reread (value : Value) :
    (Written.argumentOf? value = none ∧ ¬WritableArgument value) ∨
      ∃ arg, Written.argumentOf? value = some arg ∧ WritableArgument value ∧
        arg.toValue.equals value = true := by
  cases value with
  | null | bool | array | object | call | deferred => exact .inl ⟨rfl, id⟩
  | string text =>
    refine .inr ⟨_, rfl, trivial, ?_⟩
    rw [Written.toValue, Value.equals]
    exact beq_self_eq_true text
  | number value =>
    by_cases hfinite : value.isFinite = true
    · refine .inr ⟨_, if_pos hfinite, hfinite, ?_⟩
      rw [Written.toValue, Value.equals]
      exact Binary64.equals_withoutZeroSign hfinite
    · exact .inl ⟨if_neg hfinite, hfinite⟩

/-- The same of all arguments of a call together. -/
theorem arguments_reread (values : List Value) :
    (values.mapM Written.argumentOf? = none ∧ ¬∀ value ∈ values, WritableArgument value) ∨
      ∃ args, values.mapM Written.argumentOf? = some args ∧
        (∀ value ∈ values, WritableArgument value) ∧
          Value.itemsEqual (Written.itemsToValues args) values = true := by
  induction values with
  | nil =>
    refine .inr ⟨[], rfl, fun value hvalue => absurd hvalue List.not_mem_nil, ?_⟩
    rw [Written.itemsToValues, Value.itemsEqual]
  | cons value values ih =>
    rcases argument_reread value with ⟨harg, hnot⟩ | ⟨arg, harg, hwritable, hequal⟩
    · exact .inl ⟨by simp [harg], fun hall => hnot (hall value List.mem_cons_self)⟩
    rcases ih with ⟨hargs, hnot⟩ | ⟨args, hargs, hall, hequals⟩
    · exact .inl ⟨by simp [hargs], fun hall => hnot fun other hother =>
        hall other (List.mem_cons_of_mem _ hother)⟩
    refine .inr ⟨arg :: args, by simp [harg, hargs], List.forall_mem_cons.2 ⟨hwritable, hall⟩, ?_⟩
    rw [Written.itemsToValues, Value.itemsEqual, hequal, hequals]
    rfl

/-- A value can be written exactly when it is writable, and what is read back equals it. -/
theorem value_reread (value : Value) :
    (rereadValue? value = none ∧ ¬Writable value) ∨
      ∃ again, rereadValue? value = some again ∧ Writable value ∧ again.equals value = true := by
  rw [rereadValue?]
  cases value with
  | null | array | object => exact .inl ⟨rfl, id⟩
  | string text =>
    refine .inr ⟨_, rfl, trivial, ?_⟩
    rw [Written.toValue, Value.equals]
    exact beq_self_eq_true text
  | bool value =>
    refine .inr ⟨_, rfl, trivial, ?_⟩
    rw [Written.toValue, Value.equals]
    exact beq_self_eq_true value
  | deferred callback =>
    obtain ⟨again, hcompile, hexpression⟩ := compile_expression callback
    refine .inr ⟨.deferred again, ?_, trivial, ?_⟩
    · rw [Written.ofValue?, Option.map_some, Written.toValue, hcompile]
    · rw [Value.equals, hexpression]
      exact beq_self_eq_true callback.expression
  | number value =>
    by_cases hfinite : value.isFinite = true
    · refine .inr ⟨.number value.withoutZeroSign, ?_, hfinite, ?_⟩
      · rw [Written.ofValue?, if_pos hfinite, Option.map_some, Written.toValue]
      · rw [Value.equals]
        exact Binary64.equals_withoutZeroSign hfinite
    · refine .inl ⟨?_, hfinite⟩
      rw [Written.ofValue?, if_neg hfinite, Option.map_none]
  | call name args =>
    rw [Written.ofValue?]
    -- a call is written if its name is an identifier and all its arguments are written
    by_cases hname : IsIdentifier name
    · rw [if_pos hname]
      rcases arguments_reread args with ⟨hargs, hnot⟩ | ⟨written, hargs, hall, hequals⟩
      · exact .inl ⟨by rw [hargs]; rfl, fun hwritable => hnot hwritable.2⟩
      · refine .inr ⟨.call name (Written.itemsToValues written), by rw [hargs]; rfl,
          ⟨hname, hall⟩, ?_⟩
        rw [Value.equals, hequals, Bool.and_true]
        exact beq_self_eq_true name
    · rw [if_neg hname]
      exact .inl ⟨rfl, fun hwritable => hname hwritable.1⟩

/-! ### Equal schemas -/

/-- Both are there, and equal as values, or neither is. -/
def Agree : Option Value → Option Value → Prop
  | none, none => True
  | some value, some other => value.equals other = true
  | _, _ => False

/-- Equal lists of fields are both empty, or equal at the front and behind it. -/
theorem fieldsEqual_cases {fields other : List (String × Value)}
    (h : Value.fieldsEqual fields other = true) :
    (fields = [] ∧ other = []) ∨
      ∃ key value rest key' value' rest', fields = (key, value) :: rest ∧
        other = (key', value') :: rest' ∧ (key == key' && value.equals value') = true ∧
          Value.fieldsEqual rest rest' = true := by
  rw [Value.fieldsEqual.eq_def] at h
  split at h
  · exact .inl ⟨rfl, rfl⟩
  · obtain ⟨hfield, hrest⟩ := Bool.and_eq_true_iff.1 h
    exact .inr ⟨_, _, _, _, _, _, rfl, rfl, hfield, hrest⟩
  · exact nomatch h

theorem fieldsEqual_append {fields other more further : List (String × Value)}
    (h : Value.fieldsEqual fields other = true) (hmore : Value.fieldsEqual more further = true) :
    Value.fieldsEqual (fields ++ more) (other ++ further) = true := by
  induction fields generalizing other with
  | nil =>
    rcases fieldsEqual_cases h with ⟨-, rfl⟩ | ⟨_, _, _, _, _, _, hnil, -⟩
    · exact hmore
    · exact nomatch hnil
  | cons field fields ih =>
    rcases fieldsEqual_cases h with
      ⟨hcons, -⟩ | ⟨key, value, rest, _, _, _, hcons, rfl, hfield, hrest⟩
    · exact nomatch hcons
    · obtain ⟨rfl, rfl⟩ := List.cons.inj hcons
      rw [List.cons_append, List.cons_append, Value.fieldsEqual, hfield, ih hrest]
      rfl

theorem isEmpty_of_fieldsEqual {fields other : List (String × Value)}
    (h : Value.fieldsEqual fields other = true) : fields.isEmpty = other.isEmpty := by
  rcases fieldsEqual_cases h with ⟨rfl, rfl⟩ | ⟨_, _, _, _, _, _, rfl, rfl, -⟩
  · rfl
  · rfl

section Agreement

variable {keep other : Value → Option Value}

mutual

/-- Keeping equal values at the leaves keeps equal values. -/
theorem keepLeaves_agree (hagree : ∀ value, Agree (keep value) (other value)) (value : Value) :
    Agree (keepLeaves keep value) (keepLeaves other value) := by
  cases value with
  | object fields =>
    have hfields := keepFieldLeaves_equal hagree fields
    rw [keepLeaves, keepLeaves, isEmpty_of_fieldsEqual hfields]
    split
    · trivial
    · rw [Agree, Value.equals]
      exact hfields
  | null | bool | number | string | array | call | deferred =>
    rw [keepLeaves, keepLeaves]
    · exact hagree _
    all_goals exact nofun

/-- Keeping equal values at the leaves keeps equal fields. -/
theorem keepFieldLeaves_equal (hagree : ∀ value, Agree (keep value) (other value))
    (fields : List (String × Value)) :
    Value.fieldsEqual (keepFieldLeaves keep fields) (keepFieldLeaves other fields) = true := by
  cases fields with
  | nil => rw [keepFieldLeaves, keepFieldLeaves, Value.fieldsEqual]
  | cons field rest =>
    obtain ⟨key, value⟩ := field
    have hvalue := keepLeaves_agree hagree value
    rw [keepFieldLeaves, keepFieldLeaves]
    refine fieldsEqual_append ?_ (keepFieldLeaves_equal hagree rest)
    split
    · cases hkeep : keepLeaves keep value with
      | none =>
        cases hother : keepLeaves other value with
        | none => rw [Option.map_none, Option.toList_none, Value.fieldsEqual]
        | some same =>
          rw [hkeep, hother] at hvalue
          exact hvalue.elim
      | some kept =>
        cases hother : keepLeaves other value with
        | none =>
          rw [hkeep, hother] at hvalue
          exact hvalue.elim
        | some same =>
          rw [hkeep, hother, Agree] at hvalue
          simp [Value.fieldsEqual, hvalue]
    · rw [Value.fieldsEqual]

end

end Agreement

/-- What is read back of a value agrees with what is writable of it. -/
theorem rereadValue?_agree (value : Value) :
    Agree (rereadValue? value) (if Writable value then some value else none) := by
  rcases value_reread value with ⟨hnone, hnot⟩ | ⟨again, hsome, hwritable, hequal⟩
  · rw [hnone, if_neg hnot]
    trivial
  · rw [hsome, if_pos hwritable]
    exact hequal

/-! ### The round trip -/

theorem entryValues_filterMap (leaves : List (List String × Value)) :
    entryValues (leaves.filterMap writtenEntry) = leaves.filterMap (keptEntry rereadValue?) := by
  rw [entryValues, List.map_filterMap]
  refine List.filterMap_congr fun leaf _ => ?_
  rw [writtenEntry, keptEntry, rereadValue?]
  split
  · cases Written.ofValue? leaf.2 <;> rfl
  · rfl

/-- **A printed schema reads back**: without an error and, up to the sign of zero, as its writable
part. -/
theorem parse_toDocumentText {schema : Schema} (hordered : (Value.object schema).Ordered)
    (hkeys : ∀ leaf ∈ fieldLeaves schema, ∀ key ∈ leaf.1, '\n' ∉ key.toList)
    (hbalanced : ∀ leaf ∈ fieldLeaves schema, ∀ callback, leaf.2 = .deferred callback →
      Balanced callback.expression.toList)
    {limit : Nat}
    (hlimit : (tokensFrom Position.start schema.toDocumentText.toList).length ≤ limit) :
    (parseWithLimit limit schema.toDocumentText).errors = [] ∧
      (parseWithLimit limit schema.toDocumentText).schema.equals schema.writablePart = true := by
  rw [Value.Ordered] at hordered
  have hprintable : ∀ leaf ∈ fieldLeaves schema, Printable leaf := fun leaf hleaf =>
    ⟨path_ne_nil_of_mem_fieldLeaves hleaf, hkeys leaf hleaf, hbalanced leaf hleaf⟩
  have htext : schema.toDocumentText.toList = (fieldLeaves schema).flatMap leafText := by
    rw [Schema.toDocumentText, String.toList_ofList, Printer.fieldLines_eq]
    rfl
  have hspells := spellsAll_lines hprintable
  rw [← htext] at hspells
  obtain ⟨herrors, hschema⟩ := parseWithLimit_of_spellsAll hlimit hspells
  refine ⟨herrors, ?_⟩
  have hbuilt := @applyEntries_fieldLeaves rereadValue? (fun _ => rfl) [] schema
    (fun field hfield => absurd hfield List.not_mem_nil) hordered.1 hordered.2
  rw [hschema, entryValues_filterMap, hbuilt]
  exact keepFieldLeaves_equal rereadValue?_agree schema

/-- Of a schema with leaves of both sorts, those come back that can be written. -/
theorem parse_toDocumentText_mixed :
    let callback : Callback := ⟨"params", _, rfl⟩
    let schema : Schema := [("axis", .object [("note", .null), ("ticks[0]", .string "a\"b")]),
      ("bad key", .bool true), ("label", .deferred callback),
      ("source", .call "rest" [.string "u", .bool true])]
    let limit := (tokensFrom Position.start schema.toDocumentText.toList).length
    (Value.object schema).Ordered ∧ (parseWithLimit limit schema.toDocumentText).errors = [] ∧
      (parseWithLimit limit schema.toDocumentText).schema.equals
        [("axis", .object [("ticks[0]", .string "a\"b")]), ("label", .deferred callback)] =
        true := by
  intro callback schema limit
  have hordered : (Value.object schema).Ordered := by
    simp only [schema, Value.Ordered, Value.FieldsOrdered, Value.ItemsOrdered, Fields.Ordered]
    decide
  have hleaves : fieldLeaves schema = [(["axis", "note"], .null),
      (["axis", "ticks[0]"], .string "a\"b"), (["bad key"], .bool true),
      (["label"], .deferred callback), (["source"], .call "rest" [.string "u", .bool true])] := rfl
  have hkeys : ∀ leaf ∈ fieldLeaves schema, ∀ key ∈ leaf.1, '\n' ∉ key.toList := by
    rw [hleaves]
    simp
  have hbalanced : ∀ leaf ∈ fieldLeaves schema, ∀ other, leaf.2 = .deferred other →
      Balanced other.expression.toList := by
    rw [hleaves]
    intro leaf hleaf other hother
    obtain rfl : other = callback := by
      simp only [List.mem_cons, List.not_mem_nil, or_false] at hleaf
      rcases hleaf with rfl | rfl | rfl | rfl | rfl
      · exact nomatch hother
      · exact nomatch hother
      · exact nomatch hother
      · exact (Value.deferred.inj hother).symm
      · exact nomatch hother
    change Balanced "params".toList
    refine ⟨fun front back hfront => ?_, by decide⟩
    have hclosing : front.count '\x7d' = 0 := by
      refine List.count_eq_zero.2 fun hmem => ?_
      have hall : '\x7d' ∈ "params".toList := by
        rw [hfront]
        exact List.mem_append_left back hmem
      exact absurd hall (by decide)
    rw [hclosing]
    exact Nat.zero_le _
  exact ⟨hordered, parse_toDocumentText hordered hkeys hbalanced (Nat.le_refl limit)⟩

end ChartSchema
