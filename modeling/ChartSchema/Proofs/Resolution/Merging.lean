import ChartSchema.Proofs.Fields.Lookup
import ChartSchema.Proofs.Resolution.Inheritance

/-!
# Merged schemas, path by path

What a merge holds at a path of names is told by what its two sides hold there (`MergesByPath`).
Where the overlay holds something, that is merged into what the base holds at the path, so that
anything but an object takes its place (`lookup?_deepMerge`) and hides all paths further down. Where
the overlay **lets a path through**, holding nothing there and only objects on the way, the base
shows as it is (`LetsThrough.lookup?_deepMerge`).

A merge puts the fields of the overlay into the base one after another. With ordered fields every
name comes once, so that what the merge holds under one name depends on the two sides under this
name only (`get?_mergeInto`). Further down it goes on in the same way: below a name that is an
object in the overlay, the merge is the merge of what stands below it on both sides
(`below_deepMerge`), where a base that is no object counts as empty. The two statements about paths
are inductions over the path with these two facts.

Layers are merged one after another, and merging is not associative: an object over a string over an
object is a new object one way and a merged one the other. Still, of the layers of a schema the
nearest that does not let a path through decides what stands there (`NearestDecides`). Layers that
let it through can be left out (`lookup?_mergeLayers_append`), and the first one that is left is the
overlay of a merge, so that it is read off `MergesByPath`.

For the layers of a chain of bases this tells a schema before its variables are replaced
(`deepMerge_by_path`). Nothing is asked of them but that their fields are ordered, at every depth.
-/

namespace ChartSchema

namespace Schema

variable {base overlay schema : Schema}

/-! ### Values at paths -/

/-- A path of several names goes on in the object below the first. -/
theorem lookup?_cons (schema : Schema) (key : String) {rest : List String} (hrest : rest ≠ []) :
    schema.lookup? (key :: rest) = (schema.below key).lookup? rest := by
  obtain ⟨next, names, rfl⟩ := List.exists_cons_of_ne_nil hrest
  rw [lookup?, below]
  · cases (Fields.get? key schema).bind Value.fields? with
    | some fields => rfl
    | none =>
      cases names with
      | nil => rfl
      | cons name names => rfl
  · exact List.cons_ne_nil next names

theorem below_of_get? {key : String} {fields : Schema}
    (hkey : Fields.get? key schema = some (.object fields)) : schema.below key = fields := by
  rw [below, hkey]
  rfl

/-- An empty schema holds nothing. -/
theorem lookup?_nil_schema (path : List String) : lookup? [] path = none := by
  induction path with
  | nil => rfl
  | cons key rest ih =>
    by_cases hrest : rest = []
    · rw [hrest, lookup?, Fields.get?_nil]
    · rw [lookup?_cons _ key hrest]
      exact ih

/-- What stands at a longer path stands in an object under its first key. -/
theorem exists_object_of_lookup? {key : String} {rest : List String} {value : Value}
    (h : (schema.below key).lookup? rest = some value) :
    ∃ fields : Schema, Fields.get? key schema = some (.object fields) ∧
      fields.lookup? rest = some value := by
  rw [below] at h
  cases hkey : (Fields.get? key schema).bind Value.fields? with
  | none =>
    rw [hkey, Option.getD_none, lookup?_nil_schema] at h
    exact absurd h (Option.some_ne_none _).symm
  | some fields =>
    obtain ⟨old, hold, hfields⟩ := Option.bind_eq_some_iff.1 hkey
    obtain rfl := Value.fields?_eq_some_iff.1 hfields
    rw [hkey] at h
    exact ⟨fields, hold, h⟩

/-- A value that is no object holds nothing further down. -/
theorem lookup?_append_of_isObject {front rest : List String} {value : Value} (hrest : rest ≠ [])
    (h : schema.lookup? front = some value) (hvalue : value.isObject = false) :
    schema.lookup? (front ++ rest) = none := by
  induction front generalizing schema with
  | nil => exact absurd h (by simp [lookup?])
  | cons key names ih =>
    rw [List.cons_append, lookup?_cons _ key (List.append_ne_nil_of_right_ne_nil names hrest)]
    by_cases hnames : names = []
    · subst hnames
      have hbelow : schema.below key = [] := by
        rw [lookup?] at h
        rw [below, h, Option.bind_some, Value.isObject_eq_false_iff.1 hvalue, Option.getD_none]
      rw [hbelow]
      exact lookup?_nil_schema _
    · rw [lookup?_cons _ key hnames] at h
      exact ih h

/-! ### One key -/

/-- What a merge holds under a key. -/
theorem get?_mergeInto {overlay : List (String × Value)} (h : Fields.Ordered overlay)
    (key : String) : Fields.get? key (mergeInto base overlay) =
      ((Fields.get? key overlay).map (mergeField (Fields.get? key base))).or
        (Fields.get? key base) := by
  induction overlay generalizing base with
  | nil => rfl
  | cons field rest ih =>
    obtain ⟨name, value⟩ := field
    have hrest : Fields.Ordered rest := List.Pairwise.of_cons h
    rw [mergeInto, ih hrest, Fields.get?_cons, Fields.get?_insert]
    by_cases hname : name = key
    -- the key stands in front, so that the rest has none of it
    · subst hname
      rw [h.get?_tail, if_pos rfl, if_pos rfl]
      rfl
    · rw [if_neg (Ne.symm hname), if_neg hname]

theorem get?_deepMerge (h : Fields.Ordered overlay) (key : String) :
    Fields.get? key (base.deepMerge overlay) =
      ((Fields.get? key overlay).map (mergeField (Fields.get? key base))).or
        (Fields.get? key base) :=
  get?_mergeInto h key

/-- A merge has ordered fields if its base has. -/
theorem ordered_mergeInto (overlay : List (String × Value)) (h : Fields.Ordered base) :
    Fields.Ordered (mergeInto base overlay) := by
  induction overlay generalizing base with
  | nil => exact h
  | cons field rest ih =>
    obtain ⟨name, value⟩ := field
    exact ih (h.insert name _)

/-- A value over nothing stays as it is. -/
theorem mergeField_none (value : Value) : mergeField none value = value := by
  cases value <;> rfl

/-- Anything but an object takes the place of what it is put over. -/
theorem mergeField_of_isObject {value : Value} (h : value.isObject = false)
    (base : Option Value) : mergeField base value = value := by
  cases value with
  | object fields => exact absurd h Bool.false_ne_true.symm
  | null | bool | number | string | array | call | deferred =>
    rcases base with _ | _ | _ | _ | _ | _ | _ | _ | _
    all_goals rfl

/-- An object over anything is an object. -/
theorem exists_mergeField_object (base : Option Value) (fields : Schema) :
    ∃ merging, mergeField base (.object fields) = .object merging := by
  rcases base with _ | _ | _ | _ | _ | _ | existing | _ | _
  all_goals exact ⟨_, rfl⟩

/-- A schema over nothing stays as it is. -/
theorem deepMerge_nil (h : Fields.Ordered overlay) : deepMerge [] overlay = overlay := by
  refine (ordered_mergeInto overlay List.Pairwise.nil).ext h fun key => ?_
  rw [get?_mergeInto h]
  cases hget : Fields.get? key overlay with
  | none => rfl
  | some value => exact congrArg some (mergeField_none value)

/-- Below a key with an object, a merge is the merge of what stands below. -/
theorem below_deepMerge {fields : Schema} (h : Fields.Ordered overlay)
    (hfields : Fields.Ordered fields) {key : String}
    (hkey : Fields.get? key overlay = some (.object fields)) :
    (base.deepMerge overlay).below key = (base.below key).deepMerge fields := by
  rw [below, get?_deepMerge h, hkey, below]
  cases hbase : Fields.get? key base with
  | none => exact (deepMerge_nil hfields).symm
  | some old =>
    cases old with
    | object existing => rfl
    | null | bool | number | string | array | call | deferred => exact (deepMerge_nil hfields).symm

/-- Below a name that the overlay does not have, a merge is its base. -/
theorem below_deepMerge_of_none (h : Fields.Ordered overlay) {key : String}
    (hkey : Fields.get? key overlay = none) :
    (base.deepMerge overlay).below key = base.below key := by
  rw [below, get?_deepMerge h, hkey]
  rfl

/-! ### Whole paths -/

/-- The schema holds nothing at the path, and only objects on the part of the path that it has. -/
def LetsThrough (schema : Schema) (path : List String) : Prop :=
  schema.lookup? path = none ∧
    ∀ front value, front <+: path → schema.lookup? front = some value → value.isObject = true

/-- What stands below a key on the path lets the rest of it through. -/
theorem LetsThrough.below {key : String} {rest : List String} {fields : Schema}
    (h : schema.LetsThrough (key :: rest)) (hrest : rest ≠ [])
    (hkey : Fields.get? key schema = some (.object fields)) : fields.LetsThrough rest := by
  have hbelow := below_of_get? hkey
  refine ⟨?_, fun front value hfront hvalue => ?_⟩
  · rw [← hbelow, ← lookup?_cons schema key hrest]
    exact h.1
  · by_cases hnil : front = []
    · rw [hnil, lookup?] at hvalue
      exact absurd hvalue (Option.some_ne_none _).symm
    · refine h.2 (key :: front) value (List.prefix_cons_inj key |>.2 hfront) ?_
      rw [lookup?_cons schema key hnil, hbelow]
      exact hvalue

/-- What stands under the first key of a longer path that is let through. -/
theorem LetsThrough.get?_cases {key : String} {rest : List String}
    (h : schema.LetsThrough (key :: rest)) :
    Fields.get? key schema = none ∨ ∃ fields, Fields.get? key schema = some (.object fields) := by
  cases hkey : Fields.get? key schema with
  | none => exact .inl rfl
  | some value =>
    have hobject := h.2 [key] value (List.prefix_append [key] rest) hkey
    obtain ⟨fields, rfl⟩ := Value.isObject_eq_true_iff.1 hobject
    exact .inr ⟨fields, rfl⟩

/-- **Where the overlay holds something**, that is merged into what the base holds. -/
theorem lookup?_deepMerge (h : (Value.object overlay).Ordered) {path : List String} {value : Value}
    (hvalue : overlay.lookup? path = some value) :
    (base.deepMerge overlay).lookup? path = some (mergeField (base.lookup? path) value) := by
  induction path generalizing base overlay with
  | nil => exact absurd hvalue (Option.some_ne_none _).symm
  | cons key rest ih =>
    by_cases hrest : rest = []
    · subst hrest
      rw [lookup?] at hvalue ⊢
      rw [get?_deepMerge h.fields, hvalue]
      rfl
    · rw [lookup?_cons _ key hrest] at hvalue ⊢
      obtain ⟨fields, hkey, hinner⟩ := exists_object_of_lookup? hvalue
      have hfields := h.field hkey
      rw [below_deepMerge h.fields hfields.fields hkey, lookup?_cons _ key hrest]
      exact ih hfields hinner

/-- **Where the overlay lets a path through**, the base shows as it is. -/
theorem LetsThrough.lookup?_deepMerge (h : (Value.object overlay).Ordered) {path : List String}
    (hpath : overlay.LetsThrough path) :
    (base.deepMerge overlay).lookup? path = base.lookup? path := by
  induction path generalizing base overlay with
  | nil => rfl
  | cons key rest ih =>
    by_cases hrest : rest = []
    · subst hrest
      have hkey : Fields.get? key overlay = none := hpath.1
      rw [lookup?, lookup?, get?_deepMerge h.fields, hkey]
      rfl
    · rw [lookup?_cons _ key hrest, lookup?_cons _ key hrest]
      rcases hpath.get?_cases with hkey | ⟨fields, hkey⟩
      · rw [below_deepMerge_of_none h.fields hkey]
      · have hfields := h.field hkey
        rw [below_deepMerge h.fields hfields.fields hkey]
        exact ih hfields (hpath.below hrest hkey)

/-- What a merge holds at every path, told by its two sides. -/
structure MergesByPath (base overlay merged : Schema) : Prop where
  /-- The overlay wins with anything but an object. -/
  replaced : ∀ path value, overlay.lookup? path = some value → value.isObject = false →
    merged.lookup? path = some value
  /-- Below that nothing is left. -/
  hidden : ∀ front rest value, rest ≠ [] → overlay.lookup? front = some value →
    value.isObject = false → merged.lookup? (front ++ rest) = none
  object : ∀ path fields, overlay.lookup? path = some (.object fields) →
    ∃ merging, merged.lookup? path = some (.object merging)
  kept : ∀ path, overlay.LetsThrough path → merged.lookup? path = base.lookup? path

theorem mergesByPath_deepMerge (h : (Value.object overlay).Ordered) :
    MergesByPath base overlay (base.deepMerge overlay) := by
  have hreplaced (path : List String) (value : Value) (hvalue : overlay.lookup? path = some value)
      (hobject : value.isObject = false) : (base.deepMerge overlay).lookup? path = some value := by
    rw [lookup?_deepMerge h hvalue, mergeField_of_isObject hobject]
  refine ⟨hreplaced, fun front rest value hrest hvalue hobject => ?_, fun path fields hfields => ?_,
    fun path hpath => hpath.lookup?_deepMerge h⟩
  · exact lookup?_append_of_isObject hrest (hreplaced front value hvalue hobject) hobject
  · obtain ⟨merging, hmerging⟩ := exists_mergeField_object (base.lookup? path) fields
    exact ⟨merging, by rw [lookup?_deepMerge h hfields, hmerging]⟩

end Schema

/-! ### Layers -/

section Layers

open Schema

/-- Of layers, the nearest first, that are merged into a schema, the nearest that does not let a
path through decides what stands there. No layer passes on the name of its own base. -/
structure NearestDecides (layers : List Schema) (merged : Schema) : Prop where
  value : ∀ nearer layer farther path value, layers = nearer ++ layer :: farther →
    (∀ other ∈ nearer, other.withoutBase.LetsThrough path) →
    layer.withoutBase.lookup? path = some value → value.isObject = false →
    merged.lookup? path = some value
  object : ∀ nearer layer farther path fields, layers = nearer ++ layer :: farther →
    (∀ other ∈ nearer, other.withoutBase.LetsThrough path) →
    layer.withoutBase.lookup? path = some (.object fields) →
    ∃ merging, merged.lookup? path = some (.object merging)
  hidden : ∀ nearer layer farther front rest value, layers = nearer ++ layer :: farther →
    (∀ other ∈ nearer, other.withoutBase.LetsThrough (front ++ rest)) → rest ≠ [] →
    layer.withoutBase.lookup? front = some value → value.isObject = false →
    merged.lookup? (front ++ rest) = none
  absent : ∀ path, (∀ layer ∈ layers, layer.withoutBase.LetsThrough path) →
    merged.lookup? path = none

/-- Leaving out the name of the base keeps the order. -/
theorem ordered_withoutBase {schema : Schema} (h : (Value.object schema).Ordered) :
    (Value.object schema.withoutBase).Ordered := by
  rw [Value.Ordered, Value.fieldsOrdered_iff] at h ⊢
  exact ⟨h.1.filter _, fun field hfield => h.2 field (List.mem_of_mem_filter hfield)⟩

/-- Nearer layers that let a path through do not change what stands there. -/
theorem lookup?_mergeLayers_append {nearer : List Schema} (layers : List Schema)
    {path : List String} (h : ∀ layer ∈ nearer, (Value.object layer).Ordered)
    (hpath : ∀ layer ∈ nearer, layer.withoutBase.LetsThrough path) :
    (mergeLayers (nearer ++ layers)).lookup? path = (mergeLayers layers).lookup? path := by
  induction nearer with
  | nil => rfl
  | cons layer rest ih =>
    obtain ⟨hlayer, hrest⟩ := List.forall_mem_cons.1 h
    obtain ⟨hthrough, hthroughs⟩ := List.forall_mem_cons.1 hpath
    rw [← ih hrest hthroughs]
    exact hthrough.lookup?_deepMerge (ordered_withoutBase hlayer)

theorem nearestDecides_mergeLayers {layers : List Schema}
    (h : ∀ layer ∈ layers, (Value.object layer).Ordered) :
    NearestDecides layers (mergeLayers layers) := by
  have hmerged (nearer : List Schema) (layer : Schema) (farther : List Schema)
      (hlayers : layers = nearer ++ layer :: farther) :
      MergesByPath (mergeLayers farther) layer.withoutBase (mergeLayers (layer :: farther)) :=
    mergesByPath_deepMerge (ordered_withoutBase (h layer (by simp [hlayers])))
  have hnearer (nearer : List Schema) (layer : Schema) (farther : List Schema) (path : List String)
      (hlayers : layers = nearer ++ layer :: farther)
      (hpath : ∀ other ∈ nearer, other.withoutBase.LetsThrough path) :
      (mergeLayers layers).lookup? path = (mergeLayers (layer :: farther)).lookup? path := by
    rw [hlayers]
    refine lookup?_mergeLayers_append _ (fun other hother => h other ?_) hpath
    rw [hlayers]
    exact List.mem_append_left _ hother
  -- each part leaves out the nearer layers and reads the merge with the deciding one
  constructor
  · intro nearer layer farther path value hlayers hpath hvalue hobject
    rw [hnearer nearer layer farther path hlayers hpath]
    exact (hmerged nearer layer farther hlayers).replaced path value hvalue hobject
  · intro nearer layer farther path fields hlayers hpath hfields
    rw [hnearer nearer layer farther path hlayers hpath]
    exact (hmerged nearer layer farther hlayers).object path fields hfields
  · intro nearer layer farther front rest value hlayers hpath hrest hvalue hobject
    rw [hnearer nearer layer farther _ hlayers hpath]
    exact (hmerged nearer layer farther hlayers).hidden front rest value hrest hvalue hobject
  · intro path hpath
    have hall := lookup?_mergeLayers_append [] h hpath
    rw [List.append_nil] at hall
    rw [hall]
    exact lookup?_nil_schema path

/-- **A merge is told by its two sides at every path**, and what a schema inherits by the nearest
of its layers that has a say: before its variables are replaced, a resolved schema is the merge of
its own layer and those of its bases. -/
theorem deepMerge_by_path :
    (∀ base overlay : Schema, (Value.object overlay).Ordered →
      MergesByPath base overlay (base.deepMerge overlay)) ∧
    ∀ (registry : Registry) (theme : Variables) (props : Option Json) (chain : List String)
      (schema : Schema), (Value.object schema).Ordered →
      (∀ name base, Fields.get? name registry = some base → (Value.object base).Ordered) →
      let layers := schema :: (followBases registry chain schema).bases.map Prod.snd
      NearestDecides layers (mergeLayers layers) ∧
        (resolveFrom registry theme props chain schema).schema =
          (finish theme props (mergeLayers layers)).1 := by
  refine ⟨fun base overlay h => mergesByPath_deepMerge h,
    fun registry theme props chain schema hschema hregistry => ?_⟩
  intro layers
  refine ⟨nearestDecides_mergeLayers fun layer hlayer => ?_, by rw [resolveFrom_eq]⟩
  rcases List.mem_cons.1 hlayer with rfl | hbase
  · exact hschema
  · obtain ⟨ending, hwalk, -⟩ := follows_followBases registry chain schema
    obtain ⟨base, hmem, rfl⟩ := List.mem_map.1 hbase
    exact hregistry base.1 base.2 (hwalk.registered base hmem)

/-- A label is overridden, and the grid beside it is inherited. -/
theorem deepMerge_by_path_axis :
    let far : Schema := [("axis", .object [("grid", .bool true), ("label", .string "a")])]
    let near : Schema := [("axis", .object [("label", .string "b")]), ("extends", .string "far")]
    let registry : Registry := [("far", far)]
    let merged := mergeLayers (near :: (followBases registry [] near).bases.map Prod.snd)
    (Value.object near).Ordered ∧ (Value.object far).Ordered ∧
      merged.lookup? ["axis", "label"] = some (.string "b") ∧
      merged.lookup? ["axis", "grid"] = some (.bool true) ∧
      (resolve registry [] none near).schema = (finish [] none merged).1 := by
  intro far near registry merged
  have hnear : (Value.object near).Ordered := by
    simp only [near, Value.Ordered, Value.FieldsOrdered, Fields.Ordered]
    decide
  have hfar : (Value.object far).Ordered := by
    simp only [far, Value.Ordered, Value.FieldsOrdered, Fields.Ordered]
    decide
  have hbases : (followBases registry [] near).bases.map Prod.snd = [far] := by
    obtain ⟨ending, hwalk, -⟩ := follows_followBases registry [] near
    have hfollows : Follows registry [] near [("far", far)] .complete :=
      .base rfl List.not_mem_nil rfl (.complete rfl)
    rw [(hfollows.unique hwalk).1]
    rfl
  have hregistry (name : String) (base : Schema) (hbase : Fields.get? name registry = some base) :
      (Value.object base).Ordered := by
    rw [Fields.get?_cons] at hbase
    split at hbase
    · exact Option.some.inj hbase ▸ hfar
    · exact absurd hbase (Option.some_ne_none _).symm
  obtain ⟨hdecides, hresolved⟩ := deepMerge_by_path.2 registry [] none [] near hnear hregistry
  have hgrid : near.withoutBase.LetsThrough ["axis", "grid"] := by
    refine ⟨rfl, fun front value hfront hvalue => ?_⟩
    rcases List.prefix_cons_iff.1 hfront with rfl | ⟨rest, rfl, hrest⟩
    · exact absurd hvalue (Option.some_ne_none _).symm
    · rcases List.prefix_cons_iff.1 hrest with rfl | ⟨last, rfl, hlast⟩
      · exact Option.some.inj hvalue ▸ rfl
      · rw [List.prefix_nil.1 hlast] at hvalue
        exact absurd hvalue (Option.some_ne_none _).symm
  refine ⟨hnear, hfar, ?_, ?_, hresolved⟩
  · exact hdecides.value [] near _ _ _ rfl (fun _ hother => absurd hother List.not_mem_nil) rfl rfl
  · exact hdecides.value [near] far [] _ _ (congrArg (near :: ·) hbases)
      (fun other hother => List.mem_singleton.1 hother ▸ hgrid) rfl rfl

end Layers

end ChartSchema
