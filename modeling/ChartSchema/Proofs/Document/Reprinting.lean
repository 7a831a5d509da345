import ChartSchema.Proofs.Document.Provenance
import ChartSchema.Proofs.Expr.Endings

/-!
# Documents printed and parsed again

The schema of a document comes back, when it is printed and parsed again, exactly if each of its
leaves is `Reprintable` (`comesBack_parse_iff`). Not every leaf of a document is. The scanner takes
`true[0]` for a name, a call may have a name with an index, and a number may be too large to be
finite; the printer has a comment for each of these. And an expression that nothing closes may have
open braces; printed, it runs on over the brace that should close it.

One direction is the round trip of printed schemas: if the expressions are balanced, the leaves with
a statement come back, and what is read back equals the schema exactly if no leaf is missing
(`writable_of_equal`, `equal_of_writable`).

For the other direction it has to be shown that the expressions of a schema that comes back are
balanced, although nothing is known about how its text was read. What comes back are expressions of
the printed text, and those are balanced or run to the end of it (`leafOf_parse`). An expression
that runs to the end would have to end as a printed line does, in a semicolon or in the remark that
something is not expressible. But none that compiles does; so it lies within that end of the last
line, where there are no braces at all (`balanced_of_suffix`).
-/

namespace ChartSchema

/-- A leaf that a statement can write, such that it is read up to its end and not further. -/
structure Reprintable (leaf : List String × Value) : Prop where
  names : ∀ name ∈ leaf.1, IsPathSegment name
  writable : Writable leaf.2
  balanced : ∀ callback, leaf.2 = .deferred callback → Balanced callback.expression.toList

instance : DecidablePred fun value : Value =>
    ∀ callback, value = .deferred callback → Balanced callback.expression.toList
  | .deferred callback =>
    decidable_of_iff (Balanced callback.expression.toList)
      ⟨fun h _ heq => Value.deferred.inj heq ▸ h, fun h => h callback rfl⟩
  | .null | .bool _ | .number _ | .string _ | .array _ | .object _ | .call .. =>
    .isTrue fun _ heq => nomatch heq

instance : DecidablePred Reprintable := fun leaf =>
  decidable_of_iff ((∀ name ∈ leaf.1, IsPathSegment name) ∧ Writable leaf.2 ∧
      ∀ callback, leaf.2 = .deferred callback → Balanced callback.expression.toList)
    ⟨fun h => ⟨h.1, h.2.1, h.2.2⟩, fun h => ⟨h.names, h.writable, h.balanced⟩⟩

/-! ### Balanced expressions -/

/-- What is read back for a value is a leaf. -/
theorem isLeaf_of_reread {value again : Value} (h : rereadValue? value = some again) :
    IsLeaf again := by
  obtain ⟨written, -, rfl⟩ := Option.map_eq_some_iff.1 h
  exact (toValue_cases written).1

/-- A leaf that is read back has a statement. -/
theorem writable_of_keptEntry {leaf : List String × Value}
    (h : (keptEntry rereadValue? leaf).isSome = true) :
    (∀ name ∈ leaf.1, IsPathSegment name) ∧ Writable leaf.2 := by
  rw [keptEntry] at h
  split at h
  · next hnames =>
    rcases value_reread leaf.2 with ⟨hnone, -⟩ | ⟨again, -, hwritable, -⟩
    · rw [hnone] at h
      exact nomatch h
    · exact ⟨hnames, hwritable⟩
  · exact nomatch h

/-- If what is read back of a schema equals it, no leaf is missing, so that each has a
statement. -/
theorem writable_of_equal {schema : Schema}
    (h : Value.fieldsEqual (keepFieldLeaves rereadValue? schema) schema = true) :
    ∀ leaf ∈ fieldLeaves schema, (∀ name ∈ leaf.1, IsPathSegment name) ∧ Writable leaf.2 := by
  have hlength := (fieldLeaves_equal h).length_eq
  rw [fieldLeaves_keepFieldLeaves (fun _ => rfl) fun _ _ => isLeaf_of_reread,
    List.filterMap_length_eq_length] at hlength
  exact fun leaf hleaf => writable_of_keptEntry (hlength leaf hleaf)

/-- If each leaf of a schema has a statement, what is read back equals the schema. -/
theorem equal_of_writable {schema : Schema}
    (h : ∀ leaf ∈ fieldLeaves schema, (∀ name ∈ leaf.1, IsPathSegment name) ∧ Writable leaf.2) :
    Value.fieldsEqual (keepFieldLeaves rereadValue? schema) schema = true := by
  have hkept : keepFieldLeaves (fun value => if Writable value then some value else none) schema =
      schema := by
    refine keepFieldLeaves_of_leaves (fun fields => if_neg id) fun leaf hleaf => ?_
    obtain ⟨hnames, hwritable⟩ := h leaf hleaf
    rw [keptEntry, if_pos hnames, if_pos hwritable]
    rfl
  have hagree := keepFieldLeaves_equal rereadValue?_agree schema
  rwa [hkept] at hagree

/-- The text of a schema is made of the lines of its leaves. -/
theorem toDocumentText_toList (schema : Schema) :
    schema.toDocumentText.toList = (fieldLeaves schema).flatMap leafText := by
  rw [Schema.toDocumentText, String.toList_ofList, Printer.fieldLines_eq]
  rfl

/-- A printed schema is parsed without an error if its lines do not run into each other, and what
comes back is what is read back of its leaves. -/
theorem parse_lines {schema : Schema} (hordered : (Value.object schema).Ordered)
    (hprintable : ∀ leaf ∈ fieldLeaves schema, Printable leaf) {limit : Nat}
    (hlimit : (tokensFrom Position.start schema.toDocumentText.toList).length ≤ limit) :
    (parseWithLimit limit schema.toDocumentText).errors = [] ∧
      (parseWithLimit limit schema.toDocumentText).schema =
        keepFieldLeaves rereadValue? schema := by
  have hspells := spellsAll_lines hprintable
  rw [← toDocumentText_toList schema] at hspells
  obtain ⟨herrors, hschema⟩ := parseWithLimit_of_spellsAll hlimit hspells
  refine ⟨herrors, ?_⟩
  rw [Value.Ordered] at hordered
  rw [hschema, entryValues_filterMap]
  exact @applyEntries_fieldLeaves rereadValue? (fun _ => rfl) [] schema
    (fun field hfield => absurd hfield List.not_mem_nil) hordered.1 hordered.2

/-! ### Open expressions -/

/-- What a printed line ends with. -/
def IsLineEnd (tail : List Char) : Prop :=
  tail = ";\n".toList ∨ tail = "(not expressible)\n".toList

/-- Every line ends as a statement or as a comment does. -/
theorem exists_lineEnd (leaf : List String × Value) :
    ∃ tail, IsLineEnd tail ∧ tail <:+ leafText leaf := by
  rw [leafText, Printer.leafLine]
  split
  · next text _ =>
    refine ⟨_, .inl rfl, Printer.dottedPath leaf.1 ++ ':' :: ' ' :: text, ?_⟩
    rw [List.append_assoc]
    rfl
  · refine ⟨_, .inr rfl, '#' :: ' ' :: (Printer.dottedPath leaf.1 ++ ':' :: ' ' ::
      (Printer.singleLine leaf.2.toJson.toText ++ [' '])), ?_⟩
    simp only [List.cons_append, List.append_assoc]
    rfl

theorem exists_end {leaves : List (List String × Value)} (h : leaves ≠ []) :
    ∃ tail, IsLineEnd tail ∧ tail <:+ leaves.flatMap leafText := by
  obtain ⟨front, last, rfl⟩ := (List.eq_nil_or_concat' leaves).resolve_left h
  obtain ⟨tail, hend, htail⟩ := exists_lineEnd last
  refine ⟨tail, hend, htail.trans ?_⟩
  rw [List.flatMap_append, List.flatMap_singleton]
  exact List.suffix_append _ _

/-- A text without braces is balanced. -/
theorem balanced_of_notMem {text : List Char} (hopening : '\x7b' ∉ text)
    (hclosing : '\x7d' ∉ text) : Balanced text := by
  refine ⟨fun front back heq => ?_, ?_⟩
  · have hfront : '\x7d' ∉ front := fun hmem => hclosing (heq ▸ List.mem_append_left back hmem)
    rw [List.count_eq_zero.2 hfront]
    exact Nat.zero_le _
  · rw [List.count_eq_zero.2 hopening, List.count_eq_zero.2 hclosing]

theorem IsLineEnd.balanced {text tail : List Char} (htail : IsLineEnd tail) (h : text <:+ tail) :
    Balanced text := by
  rcases htail with rfl | rfl
  · refine balanced_of_notMem (fun hmem => ?_) fun hmem => ?_
    · exact absurd (h.subset hmem) (by decide)
    · exact absurd (h.subset hmem) (by decide)
  · refine balanced_of_notMem (fun hmem => ?_) fun hmem => ?_
    · exact absurd (h.subset hmem) (by decide)
    · exact absurd (h.subset hmem) (by decide)

/-- No expression ends like a line, so that one at the end of what is printed lies in the end of the
last line. -/
theorem balanced_of_suffix {leaves : List (List String × Value)} (hne : leaves ≠ [])
    (callback : Callback) (h : callback.expression.toList <:+ leaves.flatMap leafText) :
    Balanced callback.expression.toList := by
  obtain ⟨tail, hend, htail⟩ := exists_end hne
  obtain ⟨hstatement, hremark⟩ := Expr.not_suffix_of_parse callback.compiles
  rcases List.suffix_or_suffix_of_suffix h htail with hwithin | hover
  · exact hend.balanced hwithin
  · rcases hend with rfl | rfl
    · exact absurd hover hstatement
    · exact absurd hover hremark

/-- Only a callback equals a callback, and one with the same expression. -/
theorem eq_deferred_of_equals {value : Value} {callback : Callback}
    (h : value.equals (.deferred callback) = true) :
    ∃ again, value = .deferred again ∧ again.expression = callback.expression := by
  cases value with
  | deferred again =>
    rw [Value.equals] at h
    exact ⟨again, rfl, eq_of_beq h⟩
  | null | bool | number | string | array | object | call => exact nomatch h

/-- An expression that is read back of a printed schema is balanced. -/
theorem balanced_of_parsed {limit : Nat} {schema : Schema} (hne : fieldLeaves schema ≠ [])
    {leaf : List String × Value}
    (hleaf : leaf ∈ fieldLeaves (parseWithLimit limit schema.toDocumentText).schema)
    {callback : Callback} (h : leaf.2.equals (.deferred callback) = true) :
    Balanced callback.expression.toList := by
  obtain ⟨again, hagain, hexpression⟩ := eq_deferred_of_equals h
  rw [← hexpression]
  rcases (leafOf_parse hleaf).expression again hagain with hbalanced | hsuffix
  · exact hbalanced
  · rw [toDocumentText_toList] at hsuffix
    exact balanced_of_suffix hne again hsuffix

/-- Expressions that come back are balanced. -/
theorem balanced_of_equal {limit : Nat} {schema : Schema}
    (h : (parseWithLimit limit schema.toDocumentText).schema.equals schema = true) :
    ∀ leaf ∈ fieldLeaves schema, ∀ callback, leaf.2 = .deferred callback →
      Balanced callback.expression.toList := by
  intro leaf hleaf callback hcallback
  obtain ⟨same, hsame, -, hequal⟩ := exists_equal_leaf h hleaf
  rw [hcallback] at hequal
  exact balanced_of_parsed (List.ne_nil_of_mem hleaf) hsame hequal

/-! ### The round trip -/

/-- The schema comes back when it is printed and parsed. -/
def ComesBack (limit : Nat) (schema : Schema) : Prop :=
  (parseWithLimit limit schema.toDocumentText).errors = [] ∧
    (parseWithLimit limit schema.toDocumentText).schema.equals schema = true

instance (limit : Nat) (schema : Schema) : Decidable (ComesBack limit schema) :=
  inferInstanceAs (Decidable (_ ∧ _))

/-- **The schema of a document comes back** exactly if all its leaves are reprintable, however the
document was cut off or recovered from. -/
theorem comesBack_parse_iff {limit : Nat} {source : String}
    (hlimit : (tokensFrom Position.start
      (parseWithLimit limit source).schema.toDocumentText.toList).length ≤ limit) :
    ComesBack limit (parseWithLimit limit source).schema ↔
      ∀ leaf ∈ fieldLeaves (parseWithLimit limit source).schema, Reprintable leaf := by
  have hordered := ordered_parse limit source
  have hleaves := fun leaf => @leafOf_parse limit source leaf
  generalize (parseWithLimit limit source).schema = schema at hlimit hordered hleaves ⊢
  have hback (hbalanced : ∀ leaf ∈ fieldLeaves schema, ∀ callback, leaf.2 = .deferred callback →
      Balanced callback.expression.toList) :
      (parseWithLimit limit schema.toDocumentText).errors = [] ∧
        (parseWithLimit limit schema.toDocumentText).schema =
          keepFieldLeaves rereadValue? schema := by
    refine parse_lines hordered (fun leaf hleaf => ?_) hlimit
    exact ⟨path_ne_nil_of_mem_fieldLeaves hleaf, (hleaves leaf hleaf).names, hbalanced leaf hleaf⟩
  constructor
  -- what comes back has balanced expressions, and then it is known what the second parse gives
  · rintro ⟨-, hequal⟩
    have hbalanced := balanced_of_equal hequal
    rw [(hback hbalanced).2] at hequal
    intro leaf hleaf
    obtain ⟨hnames, hwritable⟩ := writable_of_equal hequal leaf hleaf
    exact ⟨hnames, hwritable, hbalanced leaf hleaf⟩
  · intro hall
    obtain ⟨herrors, hschema⟩ := hback fun leaf hleaf => (hall leaf hleaf).balanced
    refine ⟨herrors, ?_⟩
    rw [hschema]
    exact equal_of_writable fun leaf hleaf => ⟨(hall leaf hleaf).names, (hall leaf hleaf).writable⟩

/-- A document with an index, a call and an expression that nothing closes, behind a statement that
is not well formed. -/
theorem comesBack_parse_iff_indexed :
    let source := "9; axis.ticks[0]: on; source: rest('u'); label: $\x7bprops.a + '\x7b\x7d'"
    let schema := (parseWithLimit 24 source).schema
    (tokensFrom Position.start schema.toDocumentText.toList).length ≤ 24 ∧
      (∀ leaf ∈ fieldLeaves schema, Reprintable leaf) ∧ ComesBack 24 schema := by
  intro source schema
  have hlimit : (tokensFrom Position.start schema.toDocumentText.toList).length ≤ 24 := by
    decide +kernel
  have hleaves : ∀ leaf ∈ fieldLeaves schema, Reprintable leaf := by
    decide +kernel
  exact ⟨hlimit, hleaves, (comesBack_parse_iff hlimit).2 hleaves⟩

/-- A boolean with an index is scanned as a name, but the printer has no statement with it: what is
printed is a comment, and nothing comes back. -/
theorem not_comesBack_boolean :
    (tokensFrom Position.start "true[0]: a;".toList).length ≤ 4 ∧
      (tokensFrom Position.start
        (parseWithLimit 4 "true[0]: a;").schema.toDocumentText.toList).length ≤ 4 ∧
        ¬ComesBack 4 (parseWithLimit 4 "true[0]: a;").schema := by
  decide +kernel

-- a call name with an index, and an open brace that takes the closing one of the printed expression
example : ∀ source ∈ ["a: f[0]('x');", "a: $\x7b\"\x7b\""],
    ¬ComesBack 7 (parseWithLimit 7 source).schema := by
  decide +kernel

end ChartSchema
