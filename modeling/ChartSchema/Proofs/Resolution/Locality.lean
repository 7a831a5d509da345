import ChartSchema.Proofs.Resolution.Idempotence

/-!
# What a resolution depends on

A resolution asks the registry for no other names than those that it reports: the bases that it
meets and the one that it misses (`followBases_congr`). It asks for no other variables than the
references in the schema that it merges (`finish_congr`). Registries and variables that agree on
these give the same result, however different they are elsewhere (`resolve_depends_on_names`).

What is asked of the other registry and the other variables is read off the resolution itself
(`AgreeOnNames`). The dependencies and the name that is missed are part of its result. The
references are those of the merged schema before anything is replaced in it (`Registry.merged`):
strings at any depth that are references, but not inside `map`, nor among the arguments of a call
that stays a call (`Value.Contains`, `Schema.RefersTo`). The value of a variable is put in and not
looked at again, so that references in values do not count.

The proofs follow the chain of bases step by step. There is one equation for each way in which a
step can go (`followBases_of_found`, `followBases_of_met`, `followBases_of_missing`,
`followBases_of_notName`), and the other registry makes the same step each time.

The name of a registered schema counts as met before its bases are followed, just as it is behind a
schema that has nothing but this base. So both resolve alike, circles included
(`resolve_base_alone`); the layer that says nothing but which base it has adds nothing to the merged
ones.
-/

namespace ChartSchema

/-! ### The next base -/

section Bases

variable {registry other : Registry} {chain : List String} {schema base : Schema} {name : String}

/-- What follows a base that is a name. -/
theorem followBases_of_name (hbase : Fields.get? Schema.baseKey schema = some (.string name)) :
    followBases registry chain schema =
      if name ∈ chain then ⟨[], some (.circular chain name)⟩
      else (Fields.get? name registry).elim ⟨[], some (.missingSchema name)⟩ fun base =>
        ⟨(name, base) :: (followBases registry (chain ++ [name]) base).bases,
          (followBases registry (chain ++ [name]) base).stop⟩ := by
  rw [followBases]
  split
  · next hnone => simp [hbase] at hnone
  · next again hagain =>
    obtain rfl : name = again := by simpa [hbase] using hagain
    by_cases hmet : name ∈ chain
    · rw [dif_pos hmet, if_pos hmet]
    · rw [dif_neg hmet, if_neg hmet]
      split
      · next found hfound => rw [hfound, Option.elim_some]
      · next hmissing => rw [hmissing, Option.elim_none]
  · next value hnotName hvalue =>
    exact absurd (Option.some.inj (hvalue.symm.trans hbase)) (hnotName name)

/-- The chain ends at a base that was met before. -/
theorem followBases_of_met (hbase : Fields.get? Schema.baseKey schema = some (.string name))
    (hmet : name ∈ chain) :
    followBases registry chain schema = ⟨[], some (.circular chain name)⟩ := by
  rw [followBases_of_name hbase, if_pos hmet]

/-- The chain ends at a base that is not registered. -/
theorem followBases_of_missing (hbase : Fields.get? Schema.baseKey schema = some (.string name))
    (hnew : name ∉ chain) (hmissing : Fields.get? name registry = none) :
    followBases registry chain schema = ⟨[], some (.missingSchema name)⟩ := by
  rw [followBases_of_name hbase, if_neg hnew, hmissing, Option.elim_none]

/-- A base that is new and registered is the next one, and its own bases follow. -/
theorem followBases_of_found (hbase : Fields.get? Schema.baseKey schema = some (.string name))
    (hnew : name ∉ chain) (hfound : Fields.get? name registry = some base) :
    followBases registry chain schema =
      ⟨(name, base) :: (followBases registry (chain ++ [name]) base).bases,
        (followBases registry (chain ++ [name]) base).stop⟩ := by
  rw [followBases_of_name hbase, if_neg hnew, hfound, Option.elim_some]

theorem followBases_of_notName {value : Value}
    (hbase : Fields.get? Schema.baseKey schema = some value)
    (hnotName : ∀ name, value ≠ .string name) :
    followBases registry chain schema = ⟨[], some (.baseNotName value.kindName)⟩ := by
  rw [followBases]
  split
  · next hnone => simp [hbase] at hnone
  · next name hname => exact absurd (Option.some.inj (hbase.symm.trans hname)) (hnotName name)
  · next other _ hother => rw [Option.some.inj (hbase.symm.trans hother)]

/-- **The walk along the bases** is the same in a registry that agrees on the names it meets and on
the one it misses. -/
theorem followBases_congr
    (hmet : ∀ found ∈ (followBases registry chain schema).bases,
      Fields.get? found.1 other = Fields.get? found.1 registry)
    (hmissed : ∀ name, (followBases registry chain schema).stop = some (.missingSchema name) →
      Fields.get? name other = Fields.get? name registry) :
    followBases other chain schema = followBases registry chain schema := by
  fun_induction followBases registry chain schema with
  | case1 chain schema hbase => exact followBases_of_none hbase
  | case2 chain schema name hbase hagain => exact followBases_of_met hbase hagain
  | case3 chain schema name hbase hnew base hfound further ih =>
    have hother : Fields.get? name other = some base := by
      rw [hmet (name, base) List.mem_cons_self, hfound]
    have hfurther := ih (fun found h => hmet found (List.mem_cons_of_mem _ h)) hmissed
    rw [followBases_of_found hbase hnew hother, hfurther]
  | case4 chain schema name hbase hnew hmissing =>
    have hother : Fields.get? name other = none := by rw [hmissed name rfl, hmissing]
    exact followBases_of_missing hbase hnew hother
  | case5 chain schema value hnotName hbase => exact followBases_of_notName hbase hnotName

end Bases

/-! ### References -/

/-- A string stands in a value, at any depth but not among the arguments of a call. -/
inductive Value.Contains (text : String) : Value → Prop where
  | here : Contains text (.string text)
  | item {items : List Value} {item : Value} (hitem : item ∈ items) (h : Contains text item) :
    Contains text (.array items)
  | field {fields : List (String × Value)} {field : String × Value} (hfield : field ∈ fields)
    (h : Contains text field.2) : Contains text (.object fields)

/-- A schema refers to a variable outside `map`. A call as the source that gives no more than an
address counts as that address. -/
def Schema.RefersTo (schema : Schema) (text : String) : Prop :=
  isVariableReference text = true ∧
    ∃ field ∈ schema, field.1 ≠ mapKey ∧ (entered field.1 field.2).Contains text

section Substitution

variable {theme other : Variables} {props : Option Json}

theorem substituteItems_congr {items : List Value}
    (h : ∀ item ∈ items, ∀ path,
      substitute other props path item = substitute theme props path item)
    (path : String) (position : Nat) :
    substituteItems other props path position items =
      substituteItems theme props path position items := by
  induction items generalizing position with
  | nil => rfl
  | cons item rest ih =>
    obtain ⟨hitem, hrest⟩ := List.forall_mem_cons.1 h
    simp only [substituteItems, hitem, ih hrest]

theorem substituteFields_congr {fields : List (String × Value)}
    (h : ∀ field ∈ fields, ∀ path,
      substitute other props path field.2 = substitute theme props path field.2) (path : String) :
    substituteFields other props path fields = substituteFields theme props path fields := by
  induction fields with
  | nil => rfl
  | cons field rest ih =>
    obtain ⟨key, value⟩ := field
    obtain ⟨hvalue, hrest⟩ := List.forall_mem_cons.1 h
    have hsame := hvalue (path ++ "." ++ key)
    simp only [substituteFields, hsame, ih hrest]

/-- A value becomes the same under variables that agree on its references. -/
theorem substitute_congr {value : Value}
    (h : ∀ text, isVariableReference text = true → value.Contains text →
      other.get? text = theme.get? text) (path : String) :
    substitute other props path value = substitute theme props path value := by
  induction value using Value.induction generalizing path with
  | array items ih =>
    have hitems := substituteItems_congr fun item hitem path =>
      ih item hitem (fun text hreference hcontains => h text hreference (.item hitem hcontains))
        path
    simp only [substitute, hitems]
  | object fields ih =>
    have hfields := substituteFields_congr fun field hfield path =>
      ih field hfield (fun text hreference hcontains => h text hreference (.field hfield hcontains))
        path
    simp only [substitute, hfields]
  | leaf value hitems hfields =>
    cases value with
    | string text =>
      simp only [substitute]
      split
      · next hreference => rw [h text hreference .here]
      · rfl
    | array => exact absurd hitems (Option.some_ne_none _)
    | object => exact absurd hfields (Option.some_ne_none _)
    | null | bool | number | call | deferred => rfl

/-- **A merged schema becomes the same** under variables that agree on its references. -/
theorem finish_congr {fields : List (String × Value)}
    (h : ∀ text, Schema.RefersTo fields text → other.get? text = theme.get? text) :
    finish other props fields = finish theme props fields := by
  induction fields with
  | nil => rfl
  | cons field rest ih =>
    obtain ⟨key, value⟩ := field
    have hrest : finish other props rest = finish theme props rest := by
      refine ih fun text hrefers => h text ?_
      obtain ⟨hreference, field, hfield, hmap, hcontains⟩ := hrefers
      exact ⟨hreference, field, List.mem_cons_of_mem _ hfield, hmap, hcontains⟩
    rw [finish_cons, finish_cons, hrest]
    by_cases hmap : key = Schema.mapKey
    · simp only [if_pos hmap]
    · have hvalue : substitute other props key (entered key value) =
          substitute theme props key (entered key value) := by
        refine substitute_congr (fun text hreference hcontains => h text ?_) key
        exact ⟨hreference, (key, value), List.mem_cons_self, hmap, hcontains⟩
      simp only [if_neg hmap, hvalue]

end Substitution

/-! ### Resolutions that agree -/

/-- The schema that is merged of a schema and its bases, before anything in it is replaced. -/
def Registry.merged (registry : Registry) (chain : List String) (schema : Schema) : Schema :=
  mergeLayers (schema :: (followBases registry chain schema).bases.map Prod.snd)

/-- Another registry and other variables agree with those of a resolution on all that it names. -/
structure AgreeOnNames (registry other : Registry) (theme palette : Variables)
    (chain : List String) (schema : Schema) (resolved : Resolved) : Prop where
  dependencies : ∀ name ∈ resolved.dependencies,
    Fields.get? name other = Fields.get? name registry
  missing : ∀ name, .missingSchema name ∈ resolved.errors →
    Fields.get? name other = Fields.get? name registry
  references : ∀ text, (registry.merged chain schema).RefersTo text →
    palette.get? text = theme.get? text

section Agreement

variable {registry other : Registry} {theme palette : Variables} {props : Option Json}

/-- A resolution is the same in another registry and with other variables that agree on what it
names. -/
theorem resolveFrom_congr {chain : List String} {schema : Schema}
    (h : AgreeOnNames registry other theme palette chain schema
      (resolveFrom registry theme props chain schema)) :
    resolveFrom other palette props chain schema =
      resolveFrom registry theme props chain schema := by
  have hbases : followBases other chain schema = followBases registry chain schema := by
    rw [resolveFrom_eq] at h
    refine followBases_congr (fun found hfound => ?_) fun name hstop => ?_
    · exact h.dependencies found.1 (List.mem_map_of_mem hfound)
    · refine h.missing name (List.mem_append_left _ ?_)
      exact Option.mem_toList.2 hstop
  have hfinish : finish palette props (registry.merged chain schema) =
      finish theme props (registry.merged chain schema) := finish_congr h.references
  rw [Registry.merged] at hfinish
  simp only [resolveFrom_eq, hbases, hfinish]

end Agreement

/-- **A resolution depends only on what it names**: another registry that has the same schemas under
its dependencies and under the name that it misses, and other variables that agree on the references
of the merged schema, give the same schema, dependencies and errors. For a registered schema its own
name is one more. -/
theorem resolve_depends_on_names (registry other : Registry) (theme palette : Variables)
    (props : Option Json) :
    (∀ schema, AgreeOnNames registry other theme palette [] schema
        (resolve registry theme props schema) →
      resolve other palette props schema = resolve registry theme props schema) ∧
    ∀ name, Fields.get? name other = Fields.get? name registry →
      (∀ schema, Fields.get? name registry = some schema →
        AgreeOnNames registry other theme palette [name] schema
          (resolveNamed registry theme props name)) →
      resolveNamed other palette props name = resolveNamed registry theme props name := by
  refine ⟨fun schema h => resolveFrom_congr h, fun name hname h => ?_⟩
  cases hfound : Fields.get? name registry with
  | none => simp only [resolveNamed, hname, hfound]
  | some schema =>
    have hagree := h schema hfound
    simp only [resolveNamed, hname, hfound] at hagree ⊢
    exact resolveFrom_congr hagree

/-- A base without a base of its own in the registry: another schema and the variable inside `map`
may differ. -/
theorem resolve_depends_on_names_elsewhere :
    let base : Schema := [("color", .string "$x"), ("extends", .string "gone")]
    let schema : Schema := [("extends", .string "a"), ("map", .object [("labels", .string "$y")])]
    let registry : Registry := [("a", base), ("z", [])]
    let other : Registry := [("a", base), ("z", schema)]
    let theme : Variables := [("x", .string "red"), ("y", .string "u")]
    let palette : Variables := [("x", .string "red"), ("y", .string "v")]
    let resolved : Resolved := ⟨[("color", .string "red"),
      ("map", .object [("labels", .string "$y")])], ["a"], [.missingSchema "gone"]⟩
    AgreeOnNames registry other theme palette [] schema (resolve registry theme none schema) ∧
      resolve other palette none schema = resolved ∧
      Fields.get? "a" other = Fields.get? "a" registry ∧
      resolveNamed other palette none "a" =
        ⟨[("color", .string "red")], [], [.missingSchema "gone"]⟩ := by
  intro base schema registry other theme palette resolved
  have hfound : Fields.get? "a" registry = some base := rfl
  have hbases (chain : List String) (hnew : "gone" ∉ chain) :
      followBases registry chain base = ⟨[], some (.missingSchema "gone")⟩ :=
    followBases_of_missing rfl hnew rfl
  have hwalk : followBases registry [] schema = ⟨[("a", base)], some (.missingSchema "gone")⟩ := by
    rw [followBases_of_found rfl List.not_mem_nil hfound, hbases _ (by decide)]
  -- both resolutions are computed, and the agreement is checked on what they name
  have hinline : resolve registry theme none schema = resolved := by
    rw [resolve, resolveFrom_eq, hwalk]
    rfl
  have hnamed : resolveNamed registry theme none "a" =
      ⟨[("color", .string "red")], [], [.missingSchema "gone"]⟩ := by
    simp only [resolveNamed, hfound, resolveFrom_eq, hbases ["a"] (by decide)]
    rfl
  have hdependencies : ∀ name ∈ ["a"], Fields.get? name other = Fields.get? name registry := by
    intro name hname
    rw [List.mem_singleton.1 hname]
    rfl
  have hmissing : ∀ name, ResolutionError.missingSchema name ∈ [.missingSchema "gone"] →
      Fields.get? name other = Fields.get? name registry := by
    intro name hname
    obtain rfl := ResolutionError.missingSchema.inj (List.mem_singleton.1 hname)
    rfl
  have hmerged : registry.merged [] schema =
      [("color", .string "$x"), ("map", .object [("labels", .string "$y")])] := by
    rw [Registry.merged, hwalk]
    rfl
  have hmergedNamed : registry.merged ["a"] base = [("color", .string "$x")] := by
    rw [Registry.merged, hbases ["a"] (by decide)]
    rfl
  have hreferences (text : String) (value : Value) (hvalue : value = .string "$x")
      (h : value.Contains text) : palette.get? text = theme.get? text := by
    cases h with
    | here =>
      rw [Value.string.inj hvalue]
      rfl
    | item | field => exact absurd hvalue (by simp)
  have hagree : AgreeOnNames registry other theme palette [] schema
      (resolve registry theme none schema) := by
    rw [hinline]
    refine ⟨hdependencies, hmissing, fun text hrefers => ?_⟩
    rw [hmerged] at hrefers
    obtain ⟨-, field, hfield, hmap, hcontains⟩ := hrefers
    rcases List.mem_pair.1 hfield with rfl | rfl
    · exact hreferences text _ rfl hcontains
    · exact absurd rfl hmap
  have hagreeNamed : AgreeOnNames registry other theme palette ["a"] base
      (resolveNamed registry theme none "a") := by
    rw [hnamed]
    refine ⟨fun name hname => absurd hname List.not_mem_nil, hmissing, fun text hrefers => ?_⟩
    rw [hmergedNamed] at hrefers
    obtain ⟨-, field, hfield, hmap, hcontains⟩ := hrefers
    rw [List.mem_singleton.1 hfield] at hcontains
    exact hreferences text _ rfl hcontains
  obtain ⟨hresolve, hresolveNamed⟩ := resolve_depends_on_names registry other theme palette none
  refine ⟨hagree, (hresolve schema hagree).trans hinline, rfl, ?_⟩
  refine (hresolveNamed "a" rfl fun found hagain => ?_).trans hnamed
  rw [← Option.some.inj (hfound.symm.trans hagain)]
  exact hagreeNamed

/-! ### A schema that is only a base -/

/-- A schema that says nothing but which base it has. -/
def Schema.onlyBase (name : String) : Schema :=
  [(baseKey, .string name)]

/-- A layer that says nothing but which base it has adds nothing. -/
theorem mergeLayers_onlyBase (name : String) (layers : List Schema) :
    mergeLayers (Schema.onlyBase name :: layers) = mergeLayers layers := by
  have hempty : (Schema.onlyBase name).withoutBase = [] := by
    simp [Schema.onlyBase, Schema.withoutBase, Fields.erase]
  rw [mergeLayers, List.foldr_cons, hempty]
  rfl

/-- **A schema that only names a base is that base**: it resolves to the same schema with the same
errors as the base by its name, whatever circles the registry has, and depends on the base itself
before all others. -/
theorem resolve_base_alone (registry : Registry) (theme : Variables) (props : Option Json)
    (name : String) :
    let alone := resolve registry theme props (Schema.onlyBase name)
    let named := resolveNamed registry theme props name
    alone.schema = named.schema ∧ alone.errors = named.errors ∧
      if (Fields.get? name registry).isSome then alone.dependencies = name :: named.dependencies
      else alone.dependencies = [] ∧ named.dependencies = [] := by
  intro alone named
  have hbase : Fields.get? Schema.baseKey (Schema.onlyBase name) = some (.string name) := by
    simp [Schema.onlyBase, Fields.get?_cons]
  cases hfound : Fields.get? name registry with
  | none =>
    have hwalk : followBases registry [] (Schema.onlyBase name) = _ :=
      followBases_of_missing hbase List.not_mem_nil hfound
    have halone : alone = ⟨[], [], [.missingSchema name]⟩ := by
      simp only [alone, resolve, resolveFrom_eq, hwalk, List.map_nil, mergeLayers_onlyBase]
      rfl
    have hnamed : named = ⟨[], [], [.missingSchema name]⟩ := by
      simp only [named, resolveNamed, hfound]
    simp [halone, hnamed]
  | some base =>
    have hwalk : followBases registry [] (Schema.onlyBase name) = _ :=
      followBases_of_found hbase List.not_mem_nil hfound
    have hnamed : named = resolveFrom registry theme props [name] base := by
      simp only [named, resolveNamed, hfound]
    have halone : alone = { named with dependencies := name :: named.dependencies } := by
      simp only [hnamed, alone, resolve, resolveFrom_eq, hwalk, List.map_cons, List.nil_append,
        mergeLayers_onlyBase]
    simp [halone]

end ChartSchema
