import ChartSchema.Chart.Rendering

/-!
# Charts that refresh

A chart holds a document, its props and the description that was rendered last. Refreshes may
overlap. Each takes the next sequence number and a copy of the document and the props when it
starts, its **ticket**; what it has rendered is applied only if on its end it is still the newest
refresh and the document and props have not been replaced, and is discarded otherwise, whether
rendering succeeded or not.

A chart that is torn down cancels its refreshes. Each chart tracks the shape of its source by
itself.
-/

namespace ChartSchema

/-- What became of a refresh that did not fail. -/
inductive RefreshOutcome where
  | applied
  /-- A newer refresh has started, or the document or the props were replaced, in the meantime. -/
  | discarded
  deriving DecidableEq

/-- A chart. The version counts how often the document or the props were replaced, the sequence
number how many refreshes have started. -/
structure Chart where
  document : String
  props : Option Json
  version : Nat
  sequence : Nat
  current : Option Description
  isTornDown : Bool
  tracker : ShapeTracker

/-- What a refresh takes along when it starts. -/
structure RefreshTicket where
  sequence : Nat
  version : Nat
  document : String
  props : Option Json

namespace Chart

/-- A chart that has not been rendered. -/
def new (document : String) (props : Option Json) : Chart :=
  ⟨document, props, 0, 0, none, false, .fresh⟩

/-- Replaces the document. -/
def updateDocument (chart : Chart) (document : String) : Chart :=
  { chart with document := document, version := chart.version + 1 }

/-- Replaces the props. -/
def updateProps (chart : Chart) (props : Option Json) : Chart :=
  { chart with props := props, version := chart.version + 1 }

/-- Cancels the refreshes of the chart, those to come included. -/
def tearDown (chart : Chart) : Chart :=
  { chart with isTornDown := true }

/-- The ticket of a refresh and the chart after it has started. -/
def begin (chart : Chart) : RefreshTicket × Chart :=
  let sequence := chart.sequence + 1
  (⟨sequence, chart.version, chart.document, chart.props⟩, { chart with sequence := sequence })

/-- Whether a refresh is still the newest, and rendered from what the chart holds. -/
def isLatest (chart : Chart) (ticket : RefreshTicket) : Bool :=
  decide (chart.sequence = ticket.sequence ∧ chart.version = ticket.version)

/-- Ends a refresh with what it has rendered. -/
def finish (chart : Chart) (ticket : RefreshTicket) (result : Except ChartError Description) :
    Except ChartError RefreshOutcome × Chart :=
  if chart.isLatest ticket then
    match result with
    | .ok description => (.ok .applied, { chart with current := some description })
    | .error error => (.error error, chart)
  else (.ok .discarded, chart)

end Chart

/-- A refresh under way. -/
structure Refresh where
  ticket : RefreshTicket
  rendering : Rendering

/-- Starts to refresh a chart in an environment. -/
def Chart.startRefresh (chart : Chart) (environment : Environment) (now : Int) :
    Refresh × Chart × Environment :=
  let (ticket, chart) := chart.begin
  let (rendering, environment, tracker) :=
    environment.startRendering ticket.document ticket.props chart.isTornDown chart.tracker now
  (⟨ticket, rendering⟩, { chart with tracker := tracker }, environment)

end ChartSchema
