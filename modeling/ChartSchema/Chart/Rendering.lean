import ChartSchema.Chart.Environment

/-!
# Rendering charts

Rendering compiles a document, fetches from the source that its configuration names, and checks
the payload. What is wrong with the document or with the payload is reported in the description
that comes out; only a missing or unusable source and a failed fetch are errors.

Fetching takes time, so a rendering is a value of its own while it is under way, and
`Environment.advance` lets one event happen to it.
-/

namespace ChartSchema

/-- A rendered chart: its configuration, its source, its data, and what was found wrong. -/
structure Description where
  config : Schema
  source : DataSource
  response : ChartResponse
  parseErrors : List ParseError
  resolutionErrors : List ResolutionError
  issues : List Issue

/-- Whether nothing was found wrong. -/
def Description.isClean (description : Description) : Bool :=
  description.parseErrors.isEmpty && description.resolutionErrors.isEmpty &&
    description.issues.isEmpty

/-- The description of a compiled chart with its payload. Issues of the payload follow those of
the configuration. -/
def CompiledChart.describe (compiled : CompiledChart) (source : DataSource) (payload : Json) :
    Description :=
  { config := compiled.config
    source := source
    response := .ofJsonLossy payload
    parseErrors := compiled.parseErrors
    resolutionErrors := compiled.resolutionErrors
    issues := compiled.issues ++ validateResponse payload }

/-- A rendering under way. -/
inductive Rendering where
  /-- There was nothing to fetch from. -/
  | failed (error : ChartError)
  | fetching (compiled : CompiledChart) (source : DataSource) (fetch : SourceFetch)

/-- The result of a rendering that has ended. -/
def Rendering.result? : Rendering → Option (Except ChartError Description)
  | .failed error => some (.error error)
  | .fetching compiled source fetch =>
    fetch.result?.map fun
      | .ok payload => .ok (compiled.describe source payload)
      | .error error => .error (.fetch error)

namespace Environment

/-- Starts to render a document: compiles it and starts to fetch from its source, the shape of
which is noted by the tracker. -/
def startRendering (environment : Environment) (document : String) (props : Option Json)
    (cancelled : Bool) (tracker : ShapeTracker) (now : Int) :
    Rendering × Environment × ShapeTracker :=
  let compiled := environment.compile document props
  match compiled.source with
  | .error error => (.failed error, environment, tracker)
  | .ok source =>
    let context : FetchContext := ⟨props, compiled.fieldMap, cancelled⟩
    let (fetch, sources, tracker) := environment.sources.start source context tracker now
    (.fetching compiled source fetch, { environment with sources := sources }, tracker)

/-- Lets an event happen to a rendering. -/
def advance (environment : Environment) (rendering : Rendering) (event : SendEvent) (now : Int) :
    Rendering × Environment :=
  match rendering with
  | .failed error => (.failed error, environment)
  | .fetching compiled source fetch =>
    let (fetch, sources) := environment.sources.advance fetch event now
    (.fetching compiled source fetch, { environment with sources := sources })

end Environment

end ChartSchema
