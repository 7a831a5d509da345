import ChartSchema.Registry
import ChartSchema.Variables

/-!
# Resolution

A schema that names a base is laid over that base, which may have a base of its own. The chain of
bases ends at a schema without a base, or where the next base cannot be used: its name is not a
string, is not registered, or is on the chain already. The layers are merged from the farthest
base up to the schema itself.

Then strings that refer to variables are replaced by their values, and callbacks are evaluated if
props are given; neither is looked at again. The `map` property stays as it is. Resolution always
ends and always gives a schema; what went wrong is listed beside it.
-/

namespace ChartSchema

/-! ### Errors -/

/-- What is wrong with a schema that is resolved. -/
inductive ResolutionError where
  /-- The base is on the chain of names already. -/
  | circular (chain : List String) (base : String)
  | missingSchema (name : String)
  /-- The base is no name but a value of this kind. -/
  | baseNotName (kind : String)
  /-- No variable goes by the name that stands at the path. -/
  | variableNotFound (reference path : String)
  deriving DecidableEq

namespace ResolutionError

/-- The stable code of an error. -/
def code : ResolutionError → String
  | .circular .. => "CIRCULAR_DEPENDENCY"
  | .missingSchema _ => "MISSING_SCHEMA"
  | .baseNotName _ => "INVALID_PROPERTY"
  | .variableNotFound .. => "VARIABLE_NOT_FOUND"

def message : ResolutionError → String
  | .circular chain base =>
    "Circular dependency detected: " ++ " -> ".intercalate (chain ++ [base])
  | .missingSchema name => "Schema '" ++ name ++ "' is not registered"
  | .baseNotName kind => "'extends' must be a schema name, got " ++ kind
  | .variableNotFound reference _ => "Variable '" ++ reference ++ "' not found"

/-- The property path or schema name that an error is about. -/
def path : ResolutionError → String
  | .circular _ base => base
  | .missingSchema name => name
  | .baseNotName _ => Schema.baseKey
  | .variableNotFound _ path => path

def display (error : ResolutionError) : String :=
  "[" ++ error.code ++ "] " ++ error.message

end ResolutionError

/-! ### The chain of bases -/

/-- A schema merged with its bases, the names of the bases in the order in which they were met, and
the error at which the chain ends, if it does not end at a schema without a base. -/
structure Merged where
  schema : Schema
  dependencies : List String
  stop : Option ResolutionError

/-- The registered names that are not on a chain. -/
def unvisited (registry : Registry) (chain : List String) : List String :=
  (Fields.keys registry).filter fun name => name ∉ chain

theorem mem_keys_of_get? {α : Type} {key : String} {value : α} {fields : Fields α}
    (h : Fields.get? key fields = some value) : key ∈ Fields.keys fields := by
  induction fields with
  | nil => simp at h
  | cons first rest ih =>
    obtain ⟨name, old⟩ := first
    rw [Fields.get?_cons] at h
    split at h
    · next heq => simp [Fields.keys, heq]
    · exact List.mem_cons_of_mem _ (ih h)

/-- A registered name that joins the chain leaves fewer names to visit. -/
theorem unvisited_length_lt {registry : Registry} {chain : List String} {name : String}
    {schema : Schema} (hnew : name ∉ chain) (hfound : Fields.get? name registry = some schema) :
    (unvisited registry (chain ++ [name])).length < (unvisited registry chain).length := by
  -- the name itself is what goes missing
  have hmem : name ∈ unvisited registry chain :=
    List.mem_filter.2 ⟨mem_keys_of_get? hfound, by simpa using hnew⟩
  have hsub : unvisited registry (chain ++ [name]) =
      (unvisited registry chain).filter (· ≠ name) := by
    simp [unvisited, List.filter_filter, Bool.and_comm]
  rw [hsub]
  exact List.length_filter_lt_length_iff_exists.2 ⟨name, hmem, by simp⟩

/-- A schema without the name of its base. -/
def Schema.withoutBase (schema : Schema) : Schema :=
  Fields.erase Schema.baseKey schema

/-- Merges a schema on top of its base, which is merged on top of its own first. `chain` holds the
names met before, in order. -/
def mergeChain (registry : Registry) (chain : List String) (schema : Schema) : Merged :=
  let below : Merged :=
    match Fields.get? Schema.baseKey schema with
    | none => ⟨[], [], none⟩
    | some (.string name) =>
      if _ : name ∈ chain then ⟨[], [], some (.circular chain name)⟩
      else match _ : Fields.get? name registry with
        | some base =>
          let merged := mergeChain registry (chain ++ [name]) base
          { merged with dependencies := name :: merged.dependencies }
        | none => ⟨[], [], some (.missingSchema name)⟩
    | some other => ⟨[], [], some (.baseNotName other.kindName)⟩
  { below with schema := below.schema.deepMerge schema.withoutBase }
termination_by (unvisited registry chain).length
decreasing_by exact unvisited_length_lt ‹_› ‹_›

/-! ### Variables and callbacks -/

/-- What comes out of a substitution and the errors met in it, in order. -/
abbrev Substituted (α : Type) := α × List ResolutionError

mutual

/-- The value at a path with its variables replaced and its callbacks evaluated. A callback that
fails, or for which there are no props, stays. -/
def substitute (theme : Variables) (props : Option Json) (path : String) :
    Value → Substituted Value
  | .string text =>
    if isVariableReference text then
      match theme.get? text with
      | some value => (value, [])
      | none => (.string text, [.variableNotFound text path])
    else (.string text, [])
  | .array items =>
    let (items, errors) := substituteItems theme props path 0 items
    (.array items, errors)
  | .object fields =>
    let (fields, errors) := substituteFields theme props path fields
    (.object fields, errors)
  | .deferred callback =>
    match props.map callback.invoke with
    | some (.ok result) => (.ofJson result, [])
    | _ => (.deferred callback, [])
  | value => (value, [])

/-- The items of an array at a path, the first of them at the given position. -/
def substituteItems (theme : Variables) (props : Option Json) (path : String)
    (position : Nat) : List Value → Substituted (List Value)
  | [] => ([], [])
  | item :: rest =>
    let (item, errors) :=
      substitute theme props (path ++ "[" ++ toString position ++ "]") item
    let (rest, more) := substituteItems theme props path (position + 1) rest
    (item :: rest, errors ++ more)

/-- The fields of an object at a path. -/
def substituteFields (theme : Variables) (props : Option Json) (path : String) :
    List (String × Value) → Substituted (List (String × Value))
  | [] => ([], [])
  | (key, value) :: rest =>
    let (value, errors) := substitute theme props (path ++ "." ++ key) value
    let (rest, more) := substituteFields theme props path rest
    ((key, value) :: rest, errors ++ more)

end

/-- The calls that stand for their address if they have no other argument. -/
def plainCalls : List String := ["rest", "request"]

/-- A source with a plain call replaced by its address. -/
def collapseSource : Value → Value
  | .call name [.string url] => if name ∈ plainCalls then .string url else .call name [.string url]
  | value => value

/-- A merged schema with its source collapsed, its variables replaced and its callbacks evaluated,
apart from the property `map`. -/
def finish (theme : Variables) (props : Option Json) :
    List (String × Value) → Substituted (List (String × Value))
  | [] => ([], [])
  | (key, value) :: rest =>
    let (value, errors) :=
      if key = Schema.mapKey then (value, [])
      else if key = Schema.sourceKey then substitute theme props key (collapseSource value)
      else substitute theme props key value
    let (rest, more) := finish theme props rest
    ((key, value) :: rest, errors ++ more)

/-! ### Resolved schemas -/

/-- A resolved schema, the names of its bases in the order in which they were met, and what went
wrong. -/
structure Resolved where
  schema : Schema
  dependencies : List String
  errors : List ResolutionError

/-- Resolves a schema whose name, if it has one, is on the chain. -/
def resolveFrom (registry : Registry) (theme : Variables) (props : Option Json)
    (chain : List String) (schema : Schema) : Resolved :=
  let merged := mergeChain registry chain schema
  let (resolved, errors) := finish theme props merged.schema
  ⟨resolved, merged.dependencies, merged.stop.toList ++ errors⟩

/-- Resolves a schema without a name. -/
def resolve (registry : Registry) (theme : Variables) (props : Option Json)
    (schema : Schema) : Resolved :=
  resolveFrom registry theme props [] schema

/-- Resolves a registered schema. -/
def resolveNamed (registry : Registry) (theme : Variables) (props : Option Json)
    (name : String) : Resolved :=
  match Fields.get? name registry with
  | some schema => resolveFrom registry theme props [name] schema
  | none => ⟨[], [], [.missingSchema name]⟩

end ChartSchema
