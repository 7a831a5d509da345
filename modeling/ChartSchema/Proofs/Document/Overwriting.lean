import Mathlib.Data.List.Induction
import ChartSchema.Proofs.Document.Building
import ChartSchema.Proofs.Resolution.Merging

/-!
# Later statements win

The schema of a document is built by carrying out its statements in order, and what stands at a path
afterwards depends on how their paths lie to it. Putting a value at a path shows at the path itself
(`Schema.lookup?_insertPath_self`), in objects on the way there (`Schema.lookup?_insertPath_front`)
and in nothing further down; a path that parts from it holds what it held
(`Schema.lookup?_insertPath_of_parts`), even where something on the common way had to make room for
an object.

A statement **concerns** a path if one of the two leads on from the other, or they are the same. The
statements that do not concern a path can be left out without changing what stands there. One that
does concern it leaves its own value there, or an object, or nothing (`Concerns.lookup?_apply`); so
whatever stood there before is gone, unless it was an object. Hence, for values that are no objects,
what the schema of a document holds at a path is told by one statement, the last of those that
concern the path (`Document.lookup?_schema_iff`). The induction is from the end of the document.

A statement without any name in its path is not one of them. No document that is parsed has such a
statement, but if there is one it is passed over (`not_last_without_path`).
-/

namespace ChartSchema

/-! ### One value -/

namespace Schema

variable {path : List String}

/-- The object under the first name of a path that goes on. -/
theorem below_insert_object (key : String) (fields schema : Schema) :
    below (Fields.insert key (.object fields) schema) key = fields := by
  rw [below, Fields.get?_insert_self]
  rfl

theorem below_insert_of_ne {key other : String} (hne : other ≠ key) (value : Value)
    (schema : Schema) :
    below (Fields.insert key value schema) other = below schema other := by
  rw [below, below, Fields.get?_insert_of_ne hne]

/-- The value is found where it was put. -/
theorem lookup?_insertPath_self (value : Value) (hpath : path ≠ []) (schema : Schema) :
    (insertPath value path schema).lookup? path = some value := by
  induction path generalizing schema with
  | nil => exact absurd rfl hpath
  | cons key rest ih =>
    by_cases hrest : rest = []
    · subst hrest
      exact Fields.get?_insert_self key value schema
    · rw [insertPath_below value key hrest, lookup?_cons _ key hrest, below_insert_object]
      exact ih hrest (schema.below key)

/-- On the way to the value there are objects. -/
theorem lookup?_insertPath_front (value : Value) {rest : List String} (hpath : path ≠ [])
    (hrest : rest ≠ []) (schema : Schema) :
    ∃ fields, (insertPath value (path ++ rest) schema).lookup? path = some (.object fields) := by
  induction path generalizing schema with
  | nil => exact absurd rfl hpath
  | cons key names ih =>
    have hgoesOn : names ++ rest ≠ [] := List.append_ne_nil_of_right_ne_nil names hrest
    rw [List.cons_append, insertPath_below value key hgoesOn]
    by_cases hnames : names = []
    · subst hnames
      exact ⟨_, Fields.get?_insert_self key _ schema⟩
    · rw [lookup?_cons _ key hnames, below_insert_object]
      exact ih hnames (schema.below key)

/-- A path that parts from that of the value holds what it held, even where something on the common
way had to make room for an object. -/
theorem lookup?_insertPath_of_parts (value : Value) {other : List String}
    (hfront : ¬ path <+: other) (hback : ¬ other <+: path) (schema : Schema) :
    (insertPath value path schema).lookup? other = schema.lookup? other := by
  induction path generalizing other schema with
  | nil => exact absurd List.nil_prefix hfront
  | cons key rest ih =>
    cases other with
    | nil => exact absurd List.nil_prefix hback
    | cons name names =>
      rw [List.cons_prefix_cons, not_and] at hfront hback
      obtain ⟨inserted, hinserted⟩ : ∃ inserted,
          insertPath value (key :: rest) schema = Fields.insert key inserted schema := by
        by_cases hrest : rest = []
        · subst hrest
          exact ⟨value, rfl⟩
        · exact ⟨_, insertPath_below value key hrest schema⟩
      by_cases hname : name = key
      -- the paths part further down, so that both go on
      · subst hname
        have hrest : rest ≠ [] := by
          rintro rfl
          exact hfront rfl List.nil_prefix
        have hnames : names ≠ [] := by
          rintro rfl
          exact hback rfl List.nil_prefix
        rw [insertPath_below value name hrest, lookup?_cons _ name hnames,
          lookup?_cons _ name hnames, below_insert_object]
        exact ih (hfront rfl) (hback rfl) (schema.below name)
      · rw [hinserted]
        by_cases hnames : names = []
        · subst hnames
          exact Fields.get?_insert_of_ne hname inserted schema
        · rw [lookup?_cons _ name hnames, lookup?_cons _ name hnames, below_insert_of_ne hname]

end Schema

/-! ### Statements -/

/-- What a statement writes is never an object. -/
theorem Written.isObject_toValue (written : Written) : written.toValue.isObject = false := by
  cases written with
  | interpolation expression =>
    rw [toValue]
    split <;> rfl
  | string | number | boolean | identifier | «variable» | dataPath | call => rfl

/-- A statement has a say in what stands at a path: it has a path itself, and one of the two is the
other or leads on from it. -/
def Statement.Concerns (path : List String) (statement : Statement) : Prop :=
  statement.path ≠ [] ∧ (statement.path <+: path ∨ path <+: statement.path)

instance (path : List String) (statement : Statement) : Decidable (statement.Concerns path) :=
  inferInstanceAs (Decidable (_ ∧ (_ ∨ _)))

/-- The last statement of a document that has a say in what stands at a path. -/
def Document.lastAbout? (path : List String) (document : Document) : Option Statement :=
  (document.statements.filter fun statement => statement.Concerns path).getLast?

namespace Statement

variable {statement : Statement} {path : List String}

/-- A statement about another path changes nothing. -/
theorem lookup?_apply_of_not_concerns (h : ¬ statement.Concerns path) (schema : Schema) :
    (statement.apply schema).lookup? path = schema.lookup? path := by
  rw [Concerns, not_and, not_or] at h
  by_cases hpath : statement.path = []
  · rw [apply, hpath]
    rfl
  · exact Schema.lookup?_insertPath_of_parts _ (h hpath).1 (h hpath).2 schema

/-- A statement that concerns a path is for it, or for a path on the way to it, or for one further
down. -/
theorem Concerns.cases (h : statement.Concerns path) : statement.path = path ∨
    (∃ rest, rest ≠ [] ∧ path = statement.path ++ rest) ∨
    ∃ rest, rest ≠ [] ∧ statement.path = path ++ rest := by
  by_cases hsame : statement.path = path
  · exact .inl hsame
  · rcases h.2 with ⟨rest, hrest⟩ | ⟨rest, hrest⟩
    · refine .inr (.inl ⟨rest, ?_, hrest.symm⟩)
      rintro rfl
      exact hsame ((List.append_nil _).symm.trans hrest)
    · refine .inr (.inr ⟨rest, ?_, hrest.symm⟩)
      rintro rfl
      exact hsame (hrest.symm.trans (List.append_nil _))

/-- A statement that concerns a path leaves nothing there that is no object, but for its own value
if it is for the path itself. -/
theorem Concerns.lookup?_apply (h : statement.Concerns path) (schema : Schema) {value : Value}
    (hvalue : value.isObject = false) :
    (statement.apply schema).lookup? path = some value ↔
      statement.path = path ∧ statement.value.toValue = value := by
  have hself : (statement.apply schema).lookup? statement.path = some statement.value.toValue :=
    Schema.lookup?_insertPath_self _ h.1 schema
  rcases h.cases with hsame | ⟨rest, hrest, hfurther⟩ | ⟨rest, hrest, hfurther⟩
  · rw [← hsame, hself]
    simp
  -- what stands further down is hidden
  · have hnone : (statement.apply schema).lookup? path = none := by
      rw [hfurther]
      exact Schema.lookup?_append_of_isObject hrest hself statement.value.isObject_toValue
    have hother : statement.path ≠ path := by
      intro hsame
      rw [hsame] at hfurther
      exact hrest (List.append_cancel_left (hfurther.symm.trans (List.append_nil path).symm))
    simp [hnone, hother]
  -- what stands on the way becomes an object
  · have hother : statement.path ≠ path := by
      intro hsame
      rw [hsame] at hfurther
      exact hrest (List.append_cancel_left (hfurther.symm.trans (List.append_nil path).symm))
    have hnot : (statement.apply schema).lookup? path ≠ some value := by
      by_cases hpath : path = []
      · rw [hpath]
        exact (Option.some_ne_none value).symm
      · obtain ⟨fields, hfields⟩ :=
          Schema.lookup?_insertPath_front statement.value.toValue hpath hrest schema
        rw [apply, hfurther, hfields]
        intro heq
        rw [← Option.some.inj heq] at hvalue
        exact Bool.noConfusion hvalue
    simp [hnot, hother]

end Statement

/-! ### Documents -/

/-- **Later statements win, path by path.** A value that is no object stands at a path exactly if
the last statement that concerns the path is for the path itself and has this value. So statements
about other paths change nothing there. -/
theorem Document.lookup?_schema_iff (document : Document) (path : List String) :
    (∀ value : Value, document.schema.lookup? path = some value ∧ value.isObject = false ↔
      ∃ statement, document.lastAbout? path = some statement ∧
        statement.path = path ∧ statement.value.toValue = value) ∧
    ∀ (schema : Schema) (statement : Statement), ¬ statement.Concerns path →
      (statement.apply schema).lookup? path = schema.lookup? path := by
  refine ⟨fun value => ?_, fun schema statement h =>
    Statement.lookup?_apply_of_not_concerns h schema⟩
  obtain ⟨statements, comments⟩ := document
  -- the induction is from the end, since the last statement decides if it concerns the path
  induction statements using List.reverseRecOn with
  | nil => simp [schema, lastAbout?, Schema.lookup?_nil_schema]
  | append_singleton earlier last ih =>
    have hschema : schema ⟨earlier ++ [last], comments⟩ =
        last.apply (schema ⟨earlier, comments⟩) := by
      simp [schema]
    rw [hschema]
    by_cases hlast : last.Concerns path
    · have habout : lastAbout? path ⟨earlier ++ [last], comments⟩ = some last := by
        simp [lastAbout?, hlast]
      rw [habout]
      constructor
      · rintro ⟨hlookup, hvalue⟩
        exact ⟨last, rfl, (hlast.lookup?_apply _ hvalue).1 hlookup⟩
      · rintro ⟨_, ⟨⟩, hpath, rfl⟩
        have hvalue := last.value.isObject_toValue
        exact ⟨(hlast.lookup?_apply _ hvalue).2 ⟨hpath, rfl⟩, hvalue⟩
    · have habout : lastAbout? path ⟨earlier ++ [last], comments⟩ =
          lastAbout? path ⟨earlier, comments⟩ := by
        simp [lastAbout?, hlast]
      rw [habout, Statement.lookup?_apply_of_not_concerns hlast]
      exact ih

/-- A flat value erases what stood below it and is itself erased by the next statement. -/
theorem Document.lookup?_schema_iff_erased :
    let below : Statement := ⟨["a", "b"], .string "x", ⟨0, 7, 1, 1⟩⟩
    let flat : Statement := ⟨["a"], .string "y", ⟨8, 13, 1, 9⟩⟩
    let beside : Statement := ⟨["a", "c"], .boolean true, ⟨14, 24, 1, 15⟩⟩
    let document : Document := ⟨[below, flat, beside], []⟩
    document.schema.lookup? ["a", "c"] = some (.bool true) ∧
      document.schema.lookup? ["a", "b"] ≠ some (.string "x") ∧ ¬ below.Concerns ["a", "c"] ∧
      (below.apply document.schema).lookup? ["a", "c"] = some (.bool true) := by
  intro below flat beside document
  obtain ⟨hheld, hkept⟩ := document.lookup?_schema_iff ["a", "c"]
  have hbeside : document.schema.lookup? ["a", "c"] = some (.bool true) :=
    ((hheld (.bool true)).2 ⟨beside, rfl, rfl, rfl⟩).1
  have happart : ¬ below.Concerns ["a", "c"] := by decide
  refine ⟨hbeside, fun hbelow => ?_, happart, (hkept document.schema below happart).trans hbeside⟩
  obtain ⟨last, hlast, hpath, -⟩ :=
    ((document.lookup?_schema_iff ["a", "b"]).1 (.string "x")).1 ⟨hbelow, rfl⟩
  have hflat : document.lastAbout? ["a", "b"] = some flat := rfl
  obtain rfl : flat = last := Option.some.inj (hflat.symm.trans hlast)
  exact absurd hpath (by decide)

/-- **The last statement whose path leads to a path need not decide**: one without any name in its
path leads everywhere and changes nothing. -/
theorem not_last_without_path :
    let named : Statement := ⟨["a"], .string "x", ⟨0, 5, 1, 1⟩⟩
    let nameless : Statement := ⟨[], .string "y", ⟨6, 10, 1, 7⟩⟩
    let document : Document := ⟨[named, nameless], []⟩
    document.schema.lookup? ["a"] = some (.string "x") ∧ (Value.string "x").isObject = false ∧
      (document.statements.filter fun statement => statement.path = ["a"] ∨
        statement.path <+: ["a"] ∨ ["a"] <+: statement.path).getLast? = some nameless ∧
      nameless.path ≠ ["a"] := by
  intro named nameless document
  exact ⟨rfl, rfl, rfl, by decide⟩

end ChartSchema
