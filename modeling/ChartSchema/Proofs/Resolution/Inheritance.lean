import Mathlib.Data.List.Perm.Subperm
import ChartSchema.Proofs.Fields.Lookup
import ChartSchema.Resolution

/-!
# Chains of bases

Resolution merges a schema on top of its base, and for that merges the base on top of its own base
first (`mergeChain`). This is the same as following the bases to the end of the chain, with nothing
merged on the way, and then merging all the layers, the nearest on top of the others
(`mergeChain_eq`). The two have one recursion, and what is said of chains is said of `followBases`,
of layers of `mergeLayers`; `resolveFrom_eq` puts them together, and other modules use resolution in
this form.

`Follows` says what it means to follow the bases of a schema: which bases are met and how the walk
ends. It is a rule for one schema at a time and does not say how far to go; that there is always
exactly one walk, through cycles too, is `follows_followBases` and `Follows.unique`. The names met
are registered and all different, so that no walk is longer than the registry (`Follows.length_le`).

A walk ends in one of four ways, and what is reported of each is written down beside it
(`WalkEnd.report`): nothing at a schema without a base, and otherwise one error with its code and
its message, in which a cycle is spelled out with all the names met. The errors of the variables
come behind it, and all have one code.

`ResolvesAlong` is what resolution makes of a walk: its names, one error if it did not end at a
schema without a base, and the layers merged from the farthest base upwards. No layer passes on the
name of its base, and substitution leaves the names of properties as they are, so that a resolved
schema has no base.
-/

namespace ChartSchema

/-! ### Chains of bases -/

/-- The bases of a schema, the nearest first, and the error at which the chain ends, if it does
not end at a schema without a base. -/
structure BaseChain where
  bases : List (String × Schema)
  stop : Option ResolutionError

/-- Follows the bases of a schema and merges nothing. `chain` holds the names met before, in
order. -/
def followBases (registry : Registry) (chain : List String) (schema : Schema) : BaseChain :=
  match Fields.get? Schema.baseKey schema with
  | none => ⟨[], none⟩
  | some (.string name) =>
    if _ : name ∈ chain then ⟨[], some (.circular chain name)⟩
    else match _ : Fields.get? name registry with
      | some base =>
        let further := followBases registry (chain ++ [name]) base
        ⟨(name, base) :: further.bases, further.stop⟩
      | none => ⟨[], some (.missingSchema name)⟩
  | some other => ⟨[], some (.baseNotName other.kindName)⟩
termination_by (unvisited registry chain).length
decreasing_by exact unvisited_length_lt ‹_› ‹_›

/-- The layers merged, the nearest on top. -/
def mergeLayers (layers : List Schema) : Schema :=
  layers.foldr (fun layer below => below.deepMerge layer.withoutBase) []

/-- **Merging a schema on top of its merged base, down the whole chain, is to follow the bases first
and then to merge all layers.** The recursion of both is the same, so that each base is one layer
more. -/
theorem mergeChain_eq (registry : Registry) (chain : List String) (schema : Schema) :
    mergeChain registry chain schema =
      ⟨mergeLayers (schema :: (followBases registry chain schema).bases.map Prod.snd),
        (followBases registry chain schema).bases.map Prod.fst,
        (followBases registry chain schema).stop⟩ := by
  fun_induction followBases registry chain schema with
  | case1 chain schema hbase =>
    rw [mergeChain]
    simp only [hbase]
    rfl
  | case2 chain schema name hbase hmet =>
    rw [mergeChain]
    simp only [hbase, dif_pos hmet]
    rfl
  | case3 chain schema name hbase hnew base hfound further ih =>
    rw [mergeChain]
    simp only [hbase, dif_neg hnew]
    split
    · next base' hbase' =>
      obtain rfl := Option.some.inj (hfound.symm.trans hbase')
      -- the merged base is given by its own chain, and is the layer below
      rw [ih]
      rfl
    · next hmissing => rw [hfound] at hmissing; cases hmissing
  | case4 chain schema name hbase hnew hmissing =>
    rw [mergeChain]
    simp only [hbase, dif_neg hnew]
    split
    · next base hfound => rw [hmissing] at hfound; cases hfound
    · rfl
  | case5 chain schema value hnotName hbase =>
    rw [mergeChain]
    simp only [hbase]
    cases value with
    | string name => exact absurd rfl (hnotName name)
    | _ => rfl

/-- Resolution follows the bases, merges the layers and finishes what comes of it. -/
theorem resolveFrom_eq (registry : Registry) (theme : Variables) (props : Option Json)
    (chain : List String) (schema : Schema) :
    let bases := followBases registry chain schema
    let finished := finish theme props (mergeLayers (schema :: bases.bases.map Prod.snd))
    resolveFrom registry theme props chain schema =
      ⟨finished.1, bases.bases.map Prod.fst, bases.stop.toList ++ finished.2⟩ := by
  simp only [resolveFrom, mergeChain_eq]

/-! ### Walks -/

/-- How following the bases of a schema ends. -/
inductive WalkEnd where
  /-- At a schema without a base. -/
  | complete
  /-- The base is no name but a value of this kind. -/
  | notName (kind : String)
  | unregistered (name : String)
  /-- The base has been met before. -/
  | cycle (name : String)

/-- The code and the message of what is reported, if anything, when a walk that has met the names
on the chain ends. -/
def WalkEnd.report (chain : List String) : WalkEnd → List (String × String)
  | complete => []
  | notName kind => [("INVALID_PROPERTY", "'extends' must be a schema name, got " ++ kind)]
  | unregistered name => [("MISSING_SCHEMA", "Schema '" ++ name ++ "' is not registered")]
  | cycle name => [("CIRCULAR_DEPENDENCY",
      "Circular dependency detected: " ++ " -> ".intercalate (chain ++ [name]))]

/-- From a schema, with the names on the chain met before, the bases are met in order and the walk
ends as said. -/
inductive Follows (registry : Registry) :
    List String → Schema → List (String × Schema) → WalkEnd → Prop where
  | complete {chain : List String} {schema : Schema}
    (hbase : Fields.get? Schema.baseKey schema = none) : Follows registry chain schema [] .complete
  | notName {chain : List String} {schema : Schema} {value : Value}
    (hbase : Fields.get? Schema.baseKey schema = some value)
    (hvalue : ∀ name, value ≠ .string name) :
    Follows registry chain schema [] (.notName value.kindName)
  | unregistered {chain : List String} {schema : Schema} {name : String}
    (hbase : Fields.get? Schema.baseKey schema = some (.string name)) (hnew : name ∉ chain)
    (hmissing : Fields.get? name registry = none) :
    Follows registry chain schema [] (.unregistered name)
  | cycle {chain : List String} {schema : Schema} {name : String}
    (hbase : Fields.get? Schema.baseKey schema = some (.string name)) (hmet : name ∈ chain) :
    Follows registry chain schema [] (.cycle name)
  | base {chain : List String} {schema base : Schema} {name : String}
    {bases : List (String × Schema)} {ending : WalkEnd}
    (hbase : Fields.get? Schema.baseKey schema = some (.string name)) (hnew : name ∉ chain)
    (hfound : Fields.get? name registry = some base)
    (further : Follows registry (chain ++ [name]) base bases ending) :
    Follows registry chain schema ((name, base) :: bases) ending

section Walk

variable {registry : Registry} {chain : List String} {schema : Schema}
  {bases : List (String × Schema)} {ending : WalkEnd}

/-- No two walks start alike. -/
theorem Follows.unique (h : Follows registry chain schema bases ending)
    {bases' : List (String × Schema)} {ending' : WalkEnd}
    (h' : Follows registry chain schema bases' ending') : bases' = bases ∧ ending' = ending := by
  induction h generalizing bases' ending' with
  | complete hbase => cases h' <;> simp_all
  | notName hbase hvalue =>
    cases h' with
    | complete hbase' => simp_all
    | notName hbase' hvalue' => simp_all
    | unregistered hbase' _ _ | cycle hbase' _ | base hbase' _ _ _ =>
      exact absurd (Option.some.inj (hbase.symm.trans hbase')) (hvalue _)
  | unregistered hbase hnew hmissing => cases h' <;> simp_all
  | cycle hbase hmet => cases h' <;> simp_all
  | base hbase hnew hfound further ih =>
    cases h' with
    | complete hbase' => simp_all
    | notName hbase' hvalue' => simp_all
    | unregistered hbase' hnew' hmissing' => simp_all
    | cycle hbase' hmet' => simp_all
    | base hbase' hnew' hfound' further' =>
      obtain rfl : _ = _ := Value.string.inj (Option.some.inj (hbase.symm.trans hbase'))
      obtain rfl : _ = _ := Option.some.inj (hfound.symm.trans hfound')
      obtain ⟨rfl, rfl⟩ := ih further'
      exact ⟨rfl, rfl⟩

/-- Every base that is met is registered under its name. -/
theorem Follows.registered (h : Follows registry chain schema bases ending) :
    ∀ base ∈ bases, Fields.get? base.1 registry = some base.2 := by
  induction h with
  | complete | notName | unregistered | cycle => simp
  | base hbase hnew hfound further ih =>
    intro base hmem
    rcases List.mem_cons.1 hmem with rfl | hmem
    · exact hfound
    · exact ih base hmem

/-- The names that are met differ from each other and from those on the chain. -/
theorem Follows.nodup (h : Follows registry chain schema bases ending) (hchain : chain.Nodup) :
    (chain ++ bases.map Prod.fst).Nodup := by
  induction h with
  | complete | notName | unregistered | cycle => simpa using hchain
  | base hbase hnew hfound further ih =>
    have hlonger := ih (List.nodup_append.2 ⟨hchain, by simp, fun a ha b hb => by
      obtain rfl := List.mem_singleton.1 hb
      exact fun heq => hnew (heq ▸ ha)⟩)
    simpa using hlonger

/-- A walk is no longer than the registry. -/
theorem Follows.length_le (h : Follows registry chain schema bases ending) (hchain : chain.Nodup) :
    bases.length ≤ registry.length := by
  have hnodup : (bases.map Prod.fst).Nodup := (List.nodup_append.1 (h.nodup hchain)).2.1
  have hsubset : bases.map Prod.fst ⊆ Fields.keys registry := by
    intro name hmem
    obtain ⟨base, hbase, rfl⟩ := List.mem_map.1 hmem
    exact mem_keys_of_get? (h.registered base hbase)
  simpa [Fields.keys] using (hnodup.subperm hsubset).length_le

/-- The error at which a chain of bases stops is what is reported of the end of a walk. -/
def WalkEnd.Reports (ending : WalkEnd) (chain : List String) (stop : Option ResolutionError) :
    Prop :=
  stop.toList.map (fun error => (error.code, error.message)) = ending.report chain

theorem reports_notName (kind : String) :
    (WalkEnd.notName kind).Reports chain (some (.baseNotName kind)) := by
  have hmessage : (ResolutionError.baseNotName kind).message =
    "'extends' must be a schema name, got " ++ kind := rfl
  rw [WalkEnd.Reports, Option.toList_some, List.map_singleton, WalkEnd.report,
    ResolutionError.code, hmessage]

theorem reports_unregistered (name : String) :
    (WalkEnd.unregistered name).Reports chain (some (.missingSchema name)) := by
  have hmessage : (ResolutionError.missingSchema name).message =
    "Schema '" ++ name ++ "' is not registered" := rfl
  rw [WalkEnd.Reports, Option.toList_some, List.map_singleton, WalkEnd.report,
    ResolutionError.code, hmessage]

/-- A base that was met before is reported with the chain that leads back to it. -/
theorem reports_cycle (name : String) :
    (WalkEnd.cycle name).Reports chain (some (.circular chain name)) := by
  have hmessage : (ResolutionError.circular chain name).message =
    "Circular dependency detected: " ++ " -> ".intercalate (chain ++ [name]) := rfl
  rw [WalkEnd.Reports, Option.toList_some, List.map_singleton, WalkEnd.report,
    ResolutionError.code, hmessage]

variable (registry chain schema)

/-- **Following bases always ends**, in a walk. -/
theorem follows_followBases : ∃ ending,
    Follows registry chain schema (followBases registry chain schema).bases ending ∧
      ending.Reports (chain ++ (followBases registry chain schema).bases.map Prod.fst)
        (followBases registry chain schema).stop := by
  fun_induction followBases registry chain schema with
  | case1 chain schema hbase => exact ⟨.complete, .complete hbase, rfl⟩
  | case2 chain schema name hbase hmet =>
    refine ⟨.cycle name, .cycle hbase hmet, ?_⟩
    rw [List.map_nil, List.append_nil]
    exact reports_cycle name
  | case3 chain schema name hbase hnew base hfound further ih =>
    obtain ⟨ending, hfollows, hreports⟩ := ih
    refine ⟨ending, .base hbase hnew hfound hfollows, ?_⟩
    rw [List.append_assoc] at hreports
    exact hreports
  | case4 chain schema name hbase hnew hmissing =>
    exact ⟨.unregistered name, .unregistered hbase hnew hmissing, reports_unregistered name⟩
  | case5 chain schema value hnotName hbase =>
    exact ⟨.notName value.kindName, .notName hbase hnotName, reports_notName value.kindName⟩

end Walk

/-! ### Merged layers -/

/-- The layers merged one after another, the farthest base first. -/
def mergedUpwards (layers : List Schema) : Schema :=
  layers.foldl (fun below layer => below.deepMerge layer.withoutBase) []

/-- Putting the nearest layer on top of all others is to go from the farthest one upwards. -/
theorem mergeLayers_eq (layers : List Schema) :
    mergeLayers layers = mergedUpwards layers.reverse := by
  rw [mergeLayers, mergedUpwards, List.foldl_reverse]

/-- A merge has no keys but those of its two sides. -/
theorem mem_keys_mergeInto {base : Schema} {overlay : List (String × Value)} {key : String}
    (h : key ∈ Fields.keys (Schema.mergeInto base overlay)) :
    key ∈ Fields.keys base ∨ key ∈ Fields.keys overlay := by
  induction overlay generalizing base with
  | nil => exact .inl (by simpa [Schema.mergeInto] using h)
  | cons field rest ih =>
    obtain ⟨name, value⟩ := field
    rw [Schema.mergeInto] at h
    rcases ih h with hmem | hmem
    · obtain ⟨pair, hpair, rfl⟩ := List.mem_map.1 hmem
      rcases Fields.mem_insert hpair with rfl | hpair
      · exact .inr List.mem_cons_self
      · exact .inl (List.mem_map.2 ⟨pair, hpair, rfl⟩)
    · exact .inr (List.mem_cons_of_mem _ hmem)

/-- A schema without the name of its base names no base. -/
theorem baseKey_notMem_withoutBase (schema : Schema) :
    Schema.baseKey ∉ Fields.keys schema.withoutBase := by
  intro h
  obtain ⟨pair, hpair, hkey⟩ := List.mem_map.1 h
  have hne := (List.mem_filter.1 hpair).2
  simp [hkey] at hne

/-- No layer passes on the name of its base. -/
theorem baseKey_notMem_mergedUpwards (layers : List Schema) :
    Schema.baseKey ∉ Fields.keys (mergedUpwards layers) := by
  suffices h : ∀ below : Schema, Schema.baseKey ∉ Fields.keys below →
      Schema.baseKey ∉ Fields.keys
        (layers.foldl (fun (below : Schema) layer => below.deepMerge layer.withoutBase) below) from
    h [] List.not_mem_nil
  induction layers with
  | nil => exact fun below hbelow => hbelow
  | cons layer rest ih =>
    intro below hbelow
    refine ih _ fun hmem => ?_
    rcases mem_keys_mergeInto hmem with hmem | hmem
    · exact hbelow hmem
    · exact baseKey_notMem_withoutBase layer hmem

/-! ### Substitution -/

section Substitution

variable (theme : Variables) (props : Option Json)

/-- Post-processing leaves the keys as they are. -/
theorem keys_finish (fields : List (String × Value)) :
    Fields.keys (finish theme props fields).1 = Fields.keys fields := by
  induction fields with
  | nil => rfl
  | cons field rest ih =>
    obtain ⟨key, value⟩ := field
    exact congrArg (key :: ·) ih

/-- Every error of a list is about a variable that is not found. -/
def OnlyVariables (errors : List ResolutionError) : Prop :=
  ∀ error ∈ errors, error.code = "VARIABLE_NOT_FOUND"

theorem OnlyVariables.append {errors more : List ResolutionError} (h : OnlyVariables errors)
    (hmore : OnlyVariables more) : OnlyVariables (errors ++ more) := by
  intro error hmem
  rcases List.mem_append.1 hmem with hmem | hmem
  · exact h error hmem
  · exact hmore error hmem

theorem onlyVariables_nil : OnlyVariables [] := fun _ h => absurd h List.not_mem_nil

mutual

/-- A value reports nothing but variables. -/
theorem onlyVariables_substitute (path : String) (value : Value) :
    OnlyVariables (substitute theme props path value).2 := by
  cases value with
  | string text =>
    rw [substitute]
    split
    · split
      · exact onlyVariables_nil
      · intro error hmem
        rw [List.mem_singleton.1 hmem, ResolutionError.code]
    · exact onlyVariables_nil
  | array items =>
    rw [substitute]
    exact onlyVariables_substituteItems path 0 items
  | object fields =>
    rw [substitute]
    exact onlyVariables_substituteFields path fields
  | deferred callback =>
    rw [substitute]
    split <;> exact onlyVariables_nil
  | null | bool | number | call =>
    rw [substitute] <;> first | exact onlyVariables_nil | simp

theorem onlyVariables_substituteItems (path : String) (position : Nat) (items : List Value) :
    OnlyVariables (substituteItems theme props path position items).2 := by
  cases items with
  | nil => exact onlyVariables_nil
  | cons item rest =>
    rw [substituteItems]
    exact (onlyVariables_substitute _ item).append (onlyVariables_substituteItems path _ rest)

theorem onlyVariables_substituteFields (path : String) (fields : List (String × Value)) :
    OnlyVariables (substituteFields theme props path fields).2 := by
  cases fields with
  | nil => exact onlyVariables_nil
  | cons field rest =>
    obtain ⟨key, value⟩ := field
    rw [substituteFields]
    exact (onlyVariables_substitute _ value).append (onlyVariables_substituteFields path rest)

end

/-- A schema that is finished reports nothing but variables. -/
theorem onlyVariables_finish (fields : List (String × Value)) :
    OnlyVariables (finish theme props fields).2 := by
  induction fields with
  | nil => exact onlyVariables_nil
  | cons field rest ih =>
    obtain ⟨key, value⟩ := field
    rw [finish]
    refine OnlyVariables.append ?_ ih
    split
    · exact onlyVariables_nil
    · split <;> exact onlyVariables_substitute theme props _ _

end Substitution

/-! ### Resolved schemas -/

/-- What resolution makes of a schema, with the names on the chain met before, when the bases are
met in order and the walk ends as said. -/
structure ResolvesAlong (registry : Registry) (theme : Variables) (props : Option Json)
    (chain : List String) (schema : Schema) (bases : List (String × Schema)) (ending : WalkEnd)
    (resolved : Resolved) : Prop where
  walk : Follows registry chain schema bases ending
  only_walk : ∀ bases' ending', Follows registry chain schema bases' ending' →
    bases' = bases ∧ ending' = ending
  dependencies : resolved.dependencies = bases.map Prod.fst
  registered : ∀ name ∈ resolved.dependencies, (Fields.get? name registry).isSome
  distinct : (chain ++ resolved.dependencies).Nodup
  length_le : resolved.dependencies.length ≤ registry.length
  /-- What the walk reports comes first, and all further errors are about variables. -/
  errors : ∃ own further, resolved.errors = own ++ further ∧
    own.map (fun error => (error.code, error.message)) =
      ending.report (chain ++ resolved.dependencies) ∧ OnlyVariables further
  /-- The farthest base is merged first and the schema itself last. -/
  schema : resolved.schema =
    (finish theme props (mergedUpwards ((bases.map Prod.snd).reverse ++ [schema]))).1
  withoutBase : Fields.get? Schema.baseKey resolved.schema = none

/-- What resolution makes of a schema with some names met before it. -/
theorem resolveFrom_along (registry : Registry) (theme : Variables) (props : Option Json)
    {chain : List String} (hchain : chain.Nodup) (schema : Schema) : ∃ bases ending,
    ResolvesAlong registry theme props chain schema bases ending
      (resolveFrom registry theme props chain schema) := by
  obtain ⟨ending, hwalk, hreports⟩ := follows_followBases registry chain schema
  have hmerged : mergeLayers (schema ::
      (followBases registry chain schema).bases.map Prod.snd) =
      mergedUpwards (((followBases registry chain schema).bases.map Prod.snd).reverse ++
        [schema]) := by
    rw [mergeLayers_eq, List.reverse_cons]
  rw [resolveFrom_eq]
  refine ⟨(followBases registry chain schema).bases, ending, hwalk, fun _ _ h => hwalk.unique h,
    rfl, fun name hmem => ?_, hwalk.nodup hchain, ?_, ?_, ?_, ?_⟩
  · obtain ⟨base, hbase, rfl⟩ := List.mem_map.1 hmem
    exact Option.isSome_iff_exists.2 ⟨_, hwalk.registered base hbase⟩
  · simpa using hwalk.length_le hchain
  · exact ⟨_, _, rfl, hreports, onlyVariables_finish theme props _⟩
  · rw [← hmerged]
  · refine Fields.get?_eq_none_iff.2 ?_
    rw [keys_finish, hmerged]
    exact baseKey_notMem_mergedUpwards _

/-- **Resolution follows the bases**, whatever the registry: of a schema without a name, and of a
registered one, whose own name counts as met. -/
theorem resolve_follows_bases (registry : Registry) (theme : Variables) (props : Option Json) :
    (∀ schema, ∃ bases ending, ResolvesAlong registry theme props [] schema bases ending
      (resolve registry theme props schema)) ∧
    ∀ name schema, Fields.get? name registry = some schema →
      ∃ bases ending, ResolvesAlong registry theme props [name] schema bases ending
        (resolveNamed registry theme props name) := by
  refine ⟨fun schema => resolveFrom_along registry theme props List.nodup_nil schema,
    fun name schema hfound => ?_⟩
  have hnamed : resolveNamed registry theme props name =
      resolveFrom registry theme props [name] schema := by
    simp only [resolveNamed, hfound]
  rw [hnamed]
  exact resolveFrom_along registry theme props (by simp) schema

/-- Three schemas in a circle: the walk from the first meets the other two and ends. -/
theorem resolve_follows_bases_circle :
    let builtOn (name : String) : Schema := [("extends", .string name)]
    let registry : Registry := [("a", builtOn "b"), ("b", builtOn "c"), ("c", builtOn "a")]
    Fields.get? "a" registry = some (builtOn "b") ∧
      (resolveNamed registry [] none "a").dependencies = ["b", "c"] := by
  intro builtOn registry
  have hfound : Fields.get? "a" registry = some (builtOn "b") := by
    simp [registry, Fields.get?]
  refine ⟨hfound, ?_⟩
  obtain ⟨bases, ending, along⟩ := (resolve_follows_bases registry [] none).2 "a" _ hfound
  have hbase (name : String) : Fields.get? Schema.baseKey (builtOn name) = some (.string name) := by
    simp [builtOn, Schema.baseKey, Fields.get?]
  have walk : Follows registry ["a"] (builtOn "b") [("b", builtOn "c"), ("c", builtOn "a")]
      (.cycle "a") :=
    .base (hbase "b") (by simp) (by simp [registry, Fields.get?])
      (.base (hbase "c") (by simp) (by simp [registry, Fields.get?])
        (.cycle (hbase "a") (by simp)))
  obtain ⟨rfl, -⟩ := along.only_walk _ _ walk
  exact along.dependencies

end ChartSchema
