import ChartSchema.Fetch.Sources
import ChartSchema.Registry
import ChartSchema.Resolution
import ChartSchema.Validation

/-!
# Compiling charts

What charts share is their environment: the settings, the registered schemas, the theme variables
and the adapters. In an environment a document is compiled: parsed, resolved against the
registered schemas and the variables, and validated. Compiling never fails; it gives a
configuration and everything that was found to be wrong on the way.
-/

namespace ChartSchema

/-- Why a chart was not rendered. -/
inductive ChartError where
  | fetch (error : FetchError)
  /-- The configuration names no source of data. -/
  | missingSource

def ChartError.message : ChartError → String
  | .fetch error => "Fetch error: " ++ error.message
  | .missingSource => "Resolved configuration has no data source"

/-- A chart before any data are fetched: its configuration, the field map for its payload, the
names of the schemas it is built on, and what was found wrong at each stage. -/
structure CompiledChart where
  config : Schema
  fieldMap : Option FieldMap
  dependencies : List String
  parseErrors : List ParseError
  resolutionErrors : List ResolutionError
  issues : List Issue

/-- The source that the configuration names. -/
def CompiledChart.source (compiled : CompiledChart) : Except ChartError DataSource :=
  match Fields.get? Schema.sourceKey compiled.config with
  | none => .error .missingSource
  | some value => (DataSource.ofValue value).mapError fun fault => .fetch (.invalidSource fault)

/-- What charts share. -/
structure Environment where
  settings : Settings
  registry : Registry
  theme : Variables
  sources : Sources

namespace Environment

/-- An environment with the stock palette and no registered schemas. -/
def ofSettings (settings : Settings) : Environment :=
  ⟨settings, [], .palette, .ofSettings settings⟩

/-- Registers the schema of a document, as far as it could be parsed, and gives the errors. -/
def registerDocument (environment : Environment) (name source : String) :
    Environment × List ParseError :=
  let (registry, errors) :=
    environment.registry.registerDocument environment.settings.tokenLimit name source
  ({ environment with registry := registry }, errors)

/-- Whether a schema is registered under a name. -/
def hasSchema (environment : Environment) (name : String) : Bool :=
  Fields.contains name environment.registry

/-- Parses, resolves and validates a document. -/
def compile (environment : Environment) (document : String) (props : Option Json) :
    CompiledChart :=
  let parsed := parseWithLimit environment.settings.tokenLimit document
  let resolved := resolve environment.registry environment.theme props parsed.schema
  { config := resolved.schema
    fieldMap := (Fields.get? Schema.mapKey resolved.schema).bind Schema.fieldMap?
    dependencies := resolved.dependencies
    parseErrors := parsed.errors
    resolutionErrors := resolved.errors
    issues := validateSchema resolved.schema }

/-- The milliseconds after which a stream is fetched again; other sources are not. -/
def streamInterval? (environment : Environment) : DataSource → Option Nat
  | .stream source =>
    some (max (source.refreshInterval.getD environment.settings.stream.refreshInterval) 1)
  | _ => none

end Environment

end ChartSchema
