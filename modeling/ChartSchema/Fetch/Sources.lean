import ChartSchema.Fetch.Query
import ChartSchema.Fetch.RequestAdapter
import ChartSchema.Fetch.Shape
import ChartSchema.Fetch.Stream

/-!
# Fetching from any source

Each kind of source has an adapter of its own: plain requests go through the cache and are sent
again when they fail, queries are posted once, and streams answer by themselves. Fetching from a
source first notes its shape, and at the end reshapes the payload by the field map.
-/

namespace ChartSchema

/-- What a fetch is given besides the source. -/
structure FetchContext where
  props : Option Json
  fieldMap : Option FieldMap
  /-- Whether the fetch is cancelled before it starts. -/
  cancelled : Bool

/-- The adapters of all kinds of source. `parts` says by which parts of themselves the values of a
stream's sample differ from the baseline. -/
structure Sources where
  request : RequestAdapter
  queryTimeout : Nat
  jitter : Binary64
  parts : List Binary64

namespace Sources

/-- The adapters that the settings ask for. -/
def ofSettings (settings : Settings) : Sources :=
  { request := ⟨settings.retry, settings.requestTimeout, settings.cache.newCache⟩
    queryTimeout := settings.requestTimeout
    jitter := settings.stream.jitter.absolute
    parts := [] }

end Sources

/-- The plan for posting a query, once. -/
def QuerySource.plan (source : QuerySource) (props : Option Json) (timeout : Nat) : SendPlan :=
  { request := source.toRequest props
    attempts := 1
    timeout := timeout
    pause := fun _ => 0
    decode := decodeAnswer source.url }

/-- A plan for what is done already. -/
def SendPlan.idle : SendPlan :=
  ⟨⟨"GET", "", [], [], none⟩, 1, 0, fun _ => 0, fun _ => .error .decode⟩

/-- A fetch that has ended before it started. -/
def Fetching.ended (result : FetchResult) : Fetching :=
  ⟨.idle, .done result, none⟩

/-- The error of an adapter that was given a source of another kind. -/
def wrongSource (adapter : String) (source : DataSource) : Fetching :=
  .ended (.error (.invalidSource (.wrongAdapter adapter source.kindName)))

/-- A fetch under way and the field map for its payload. A stream's payload is final already. -/
structure SourceFetch where
  fetching : Fetching
  fieldMap : Option FieldMap

namespace SourceFetch

/-- The result of a fetch that has ended. -/
def result? (fetch : SourceFetch) : Option FetchResult :=
  match fetch.fetching.state with
  | .done result => some (result.map (applyFieldMap fetch.fieldMap))
  | _ => none

end SourceFetch

/-- Starts a fetch through the adapter for plain requests. -/
def RequestAdapter.startFetch (adapter : RequestAdapter) (source : DataSource)
    (context : FetchContext) (cacheBust : Nat) (now : Int) : SourceFetch × RequestAdapter :=
  match source with
  | .request source =>
    let (fetching, adapter) :=
      adapter.start source context.props context.cancelled cacheBust now
    (⟨fetching, context.fieldMap⟩, adapter)
  | other => (⟨wrongSource "request" other, none⟩, adapter)

/-- Starts a fetch through the adapter for queries. -/
def startQuery (timeout : Nat) (source : DataSource) (context : FetchContext) : SourceFetch :=
  match source with
  | .query source =>
    let state :=
      if context.cancelled then SendState.done (.error .cancelled) else .inFlight 0
    ⟨⟨source.plan context.props timeout, state, none⟩, context.fieldMap⟩
  | other => ⟨wrongSource "query" other, none⟩

/-- Starts a fetch through the adapter for streams, which ends at once. -/
def startStream (jitter : Binary64) (parts : List Binary64) (source : DataSource)
    (context : FetchContext) : SourceFetch :=
  match source with
  | .stream _ =>
    if context.cancelled then ⟨.ended (.error .cancelled), none⟩
    else ⟨.ended (.ok (streamPayload context.fieldMap (streamSample jitter parts))), none⟩
  | other => ⟨wrongSource "stream" other, none⟩

namespace Sources

/-- Starts a fetch from a source: notes its shape and hands it to the adapter of its kind. -/
def start (sources : Sources) (source : DataSource) (context : FetchContext)
    (tracker : ShapeTracker) (now : Int) : SourceFetch × Sources × ShapeTracker :=
  let tracker := tracker.observe source
  match source with
  | .request _ =>
    let (fetch, request) := sources.request.startFetch source context tracker.changes now
    (fetch, { sources with request := request }, tracker)
  | .query _ => (startQuery sources.queryTimeout source context, sources, tracker)
  | .stream _ => (startStream sources.jitter sources.parts source context, sources, tracker)

/-- Lets an event happen to a fetch. -/
def advance (sources : Sources) (fetch : SourceFetch) (event : SendEvent) (now : Int) :
    SourceFetch × Sources :=
  let (fetching, request) := sources.request.advance fetch.fetching event now
  ({ fetch with fetching := fetching }, { sources with request := request })

end Sources

end ChartSchema
