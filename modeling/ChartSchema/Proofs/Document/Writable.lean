import Mathlib.Data.List.Basic
import ChartSchema.Document.Printer

/-!
# What a document can write

Not every schema can be written as a document. A statement writes one leaf: its path consists of
**path segments**, identifiers with an index or without, and its value is **writable**, that is no
`null`, no array, no object, no number beyond the finite ones and no call that has such an argument.
The predicates are stated here by themselves, in terms of characters and of values and without the
printer. That the printer decides exactly them is `isIdentifier_iff` and `isPathSegment_iff`, which
make them decidable as well.

`Schema.writablePart` is what is left of a schema without all other leaves, and without the objects
that have no leaves then. It is a case of `keepFieldLeaves`, which replaces every leaf by what is
kept of it, so that the same recursion serves what is written and what is read back for it. The
leaves themselves, with their paths, are listed by `fieldLeaves`; an object without fields is a
leaf, since a recursion that passed it over would lose it without a trace.

An interpolation is written between braces and is read up to the brace that closes it. Its
expression therefore has to be `Balanced`, with never more closing braces than opening ones from the
left, and as many in the end. Quotes play no part in this, for the lexer does not look at them
inside an interpolation.
-/

namespace ChartSchema

/-! ### Names -/

/-- Letters, digits and underscores, no digit first, and none of the booleans. -/
def IsIdentifier (text : String) : Prop :=
  (∃ first rest, text.toList = first :: rest ∧ isNameStart first = true ∧
    ∀ c ∈ rest, isNameChar c = true) ∧ text ≠ "true" ∧ text ≠ "false"

/-- Digits in brackets. -/
def IsIndex (text : List Char) : Prop :=
  ∃ digits, text = '[' :: (digits ++ [']']) ∧ digits ≠ [] ∧ ∀ c ∈ digits, c.isDigit = true

/-- An identifier, with an index or without. -/
def IsPathSegment (text : String) : Prop :=
  ∃ name index, text.toList = name ++ index ∧ IsIdentifier (String.ofList name) ∧
    (index = [] ∨ IsIndex index)

theorem isNameChar_of_isNameStart {c : Char} (h : isNameStart c = true) : isNameChar c = true := by
  rw [isNameStart, Bool.or_eq_true] at h
  rw [isNameChar, Char.isAlphanum, Bool.or_eq_true, Bool.or_eq_true]
  exact h.imp_left Or.inl

/-- **The printer's test for identifiers** is the one that is stated here. -/
theorem isIdentifier_iff (text : String) :
    Printer.isIdentifier text.toList = true ↔ IsIdentifier text := by
  have htrue : text.toList ≠ "true".toList ↔ text ≠ "true" := not_congr String.toList_inj
  have hfalse : text.toList ≠ "false".toList ↔ text ≠ "false" := not_congr String.toList_inj
  rw [Printer.isIdentifier, IsIdentifier, Bool.and_eq_true, Bool.and_eq_true, Bool.and_eq_true,
    decide_eq_true_iff, decide_eq_true_iff, htrue, hfalse, and_assoc]
  refine and_congr_left fun _ => ?_
  cases text.toList with
  | nil => simp
  | cons first rest =>
    constructor
    · rintro ⟨hfirst, hall⟩
      exact ⟨first, rest, rfl, hfirst,
        fun c hc => List.all_eq_true.1 hall c (List.mem_cons_of_mem _ hc)⟩
    · rintro ⟨_, _, heq, hfirst, hrest⟩
      obtain ⟨rfl, rfl⟩ := List.cons.inj heq
      refine ⟨hfirst, List.all_eq_true.2 fun c hc => ?_⟩
      rcases List.mem_cons.1 hc with rfl | hc
      · exact isNameChar_of_isNameStart hfirst
      · exact hrest c hc

/-- The printer's test for an index. -/
theorem isIndex_iff (text : List Char) : Printer.isIndex text = true ↔ IsIndex text := by
  constructor
  · intro h
    rw [Printer.isIndex.eq_def] at h
    split at h
    · next inner =>
      rw [Bool.and_eq_true, Bool.and_eq_true, decide_eq_true_iff, decide_eq_true_iff] at h
      obtain ⟨⟨hlast, hdigits⟩, hall⟩ := h
      have hinner : inner.dropLast ++ [']'] = inner := List.dropLast_append_getLast? _ hlast
      exact ⟨inner.dropLast, by rw [hinner], hdigits, List.all_eq_true.1 hall⟩
    · exact nomatch h
  · rintro ⟨digits, rfl, hdigits, hall⟩
    rw [Printer.isIndex]
    simpa [hdigits] using hall

/-- An identifier has no bracket. -/
theorem IsIdentifier.bracket_notMem {name : List Char} (h : IsIdentifier (String.ofList name)) :
    '[' ∉ name := by
  obtain ⟨⟨first, rest, heq, hfirst, hrest⟩, -⟩ := h
  rw [String.toList_ofList] at heq
  rw [heq]
  intro hmem
  rcases List.mem_cons.1 hmem with rfl | hmem
  · exact absurd hfirst (by decide)
  · exact absurd (hrest _ hmem) (by decide)

/-- **The printer's test for path segments**: the text is cut at its first bracket, which no
identifier has. -/
theorem isPathSegment_iff (text : String) :
    Printer.isPathSegment text.toList = true ↔ IsPathSegment text := by
  rw [Printer.isPathSegment, Bool.and_eq_true, Bool.or_eq_true, decide_eq_true_iff]
  constructor
  · rintro ⟨hname, hindex⟩
    refine ⟨_, _, List.takeWhile_append_dropWhile.symm, ?_, hindex.imp_right (isIndex_iff _).1⟩
    rw [← isIdentifier_iff, String.toList_ofList]
    exact hname
  · rintro ⟨name, index, htext, hname, hindex⟩
    have hbefore : ∀ c ∈ name, decide (c ≠ '[') = true := by
      intro c hc
      exact decide_eq_true fun heq => hname.bracket_notMem (heq ▸ hc)
    have hstop : index.takeWhile (· ≠ '[') = [] ∧ index.dropWhile (· ≠ '[') = index := by
      rcases hindex with rfl | ⟨digits, rfl, -⟩
      · exact ⟨rfl, rfl⟩
      · exact ⟨rfl, rfl⟩
    rw [htext, List.takeWhile_append_of_pos hbefore, List.dropWhile_append_of_pos hbefore, hstop.1,
      hstop.2, List.append_nil]
    refine ⟨?_, hindex.imp_right (isIndex_iff _).2⟩
    rw [← isIdentifier_iff, String.toList_ofList] at hname
    exact hname

instance (text : String) : Decidable (IsIdentifier text) :=
  decidable_of_iff _ (isIdentifier_iff text)

instance (text : String) : Decidable (IsPathSegment text) :=
  decidable_of_iff _ (isPathSegment_iff text)

/-! ### Values -/

/-- A value that a call can have as an argument. -/
def WritableArgument : Value → Prop
  | .string _ => True
  | .number value => value.isFinite = true
  | _ => False

/-- A value that can stand on the right side of a statement. -/
def Writable : Value → Prop
  | .string _ => True
  | .bool _ => True
  | .deferred _ => True
  | .number value => value.isFinite = true
  | .call name args => IsIdentifier name ∧ ∀ arg ∈ args, WritableArgument arg
  | _ => False

instance : DecidablePred WritableArgument
  | .string _ => inferInstanceAs (Decidable True)
  | .number value => inferInstanceAs (Decidable (value.isFinite = true))
  | .null | .bool _ | .array _ | .object _ | .call .. | .deferred _ =>
    inferInstanceAs (Decidable False)

instance : DecidablePred Writable
  | .string _ | .bool _ | .deferred _ => inferInstanceAs (Decidable True)
  | .number value => inferInstanceAs (Decidable (value.isFinite = true))
  | .call name args =>
    inferInstanceAs (Decidable (IsIdentifier name ∧ ∀ arg ∈ args, WritableArgument arg))
  | .null | .array _ | .object _ => inferInstanceAs (Decidable False)

/-- Never more closing braces than opening ones from the left, and as many in the end. -/
def Balanced (text : List Char) : Prop :=
  (∀ front back, text = front ++ back → front.count '\x7d' ≤ front.count '\x7b') ∧
    text.count '\x7d' = text.count '\x7b'

/-- Balance is seen from the finitely many fronts of a text. -/
theorem balanced_iff (text : List Char) :
    ((∀ n < text.length + 1, (text.take n).count '\x7d' ≤ (text.take n).count '\x7b') ∧
      text.count '\x7d' = text.count '\x7b') ↔ Balanced text := by
  refine and_congr_left fun _ => ?_
  constructor
  · rintro hnever front back rfl
    have hfront := hnever front.length (by rw [List.length_append]; omega)
    rwa [List.take_left] at hfront
  · intro hnever n _
    exact hnever _ (text.drop n) (List.take_append_drop n text).symm

instance (text : List Char) : Decidable (Balanced text) :=
  decidable_of_iff _ (balanced_iff text)

/-! ### Schemas -/

section Leaves

variable (keep : Value → Option Value)

mutual

/-- The value with every leaf replaced by what is kept of it, if anything. An object keeps its
fields under path segments, and is not kept without any. -/
def keepLeaves : Value → Option Value
  | .object fields =>
    if (keepFieldLeaves fields).isEmpty then none else some (.object (keepFieldLeaves fields))
  | value => keep value

/-- The fields under path segments with what is kept of their values. -/
def keepFieldLeaves : List (String × Value) → List (String × Value)
  | [] => []
  | (key, value) :: rest =>
    (if IsPathSegment key then ((keepLeaves value).map fun kept => (key, kept)).toList else []) ++
      keepFieldLeaves rest

end

end Leaves

/-- The schema without the leaves that no statement can write, and without the objects that have no
leaves then. -/
def Schema.writablePart (schema : Schema) : Schema :=
  keepFieldLeaves (fun value => if Writable value then some value else none) schema

mutual

/-- The leaves of a value with their paths below it, in order. An object without fields is a
leaf. -/
def valueLeaves : Value → List (List String × Value)
  | .object fields => if fields.isEmpty then [([], .object [])] else fieldLeaves fields
  | value => [([], value)]

/-- The leaves of fields, each with its key in front of its path. -/
def fieldLeaves : List (String × Value) → List (List String × Value)
  | [] => []
  | (key, value) :: rest =>
    ((valueLeaves value).map fun leaf => (key :: leaf.1, leaf.2)) ++ fieldLeaves rest

end

end ChartSchema
