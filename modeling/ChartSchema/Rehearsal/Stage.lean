import ChartSchema.Chart.Refresh
import ChartSchema.Rehearsal.Network

/-!
# Charts on a stage

A stage holds an environment, some charts in it, a scripted network and a clock. A refresh that
has been started on a stage is a **flight**: it is known what happens to it next and when. A
flight of a chart that is torn down is cancelled at once.
-/

namespace ChartSchema.Rehearsal

/-- What is done on a stage. -/
inductive Action where
  | refresh
  | updateDocument (document : String)
  | updateProps (props : Option Json)
  | tearDown
  /-- Empties the cache of responses. -/
  | invalidateAll
  /-- Only time passes. -/
  | nothing
  /-- Tells the periodic refresh to end. -/
  | endPeriodic

/-- How an action ended. Only refreshes have something to tell. -/
inductive Answer where
  | refreshed (outcome : Except ChartError RefreshOutcome)
  | done

/-- The clock counts milliseconds. The date, for the cache, stays the same. -/
structure Stage where
  environment : Environment
  charts : List Chart
  network : Network
  clock : Nat
  date : Int

/-- A refresh under way: of which chart, and what happens next. -/
structure Flight where
  chart : Nat
  refresh : Refresh
  due : Option Due

/-- A refresh is under way or over. -/
inductive Progress where
  | underWay (flight : Flight)
  | over (outcome : Except ChartError RefreshOutcome)

namespace Stage

/-- The chart of a number; there is an empty one for every number that is not on the stage. -/
def chart (stage : Stage) (number : Nat) : Chart :=
  (stage.charts[number]?).getD (.new "" none)

def setChart (stage : Stage) (number : Nat) (chart : Chart) : Stage :=
  { stage with charts := stage.charts.set number chart }

/-- The stage at a later time. -/
def wait (stage : Stage) (time : Nat) : Stage :=
  { stage with clock := max stage.clock time }

/-- What happens next to a flight. -/
def nextDue (stage : Stage) (flight : Flight) : Option Due :=
  if (stage.chart flight.chart).isTornDown then some ⟨stage.clock, .cancel⟩ else flight.due

/-- What happens next to a rendering that has just come to where it is. -/
def expect (stage : Stage) : Rendering → Option Due × Stage
  | .failed _ => (none, stage)
  | .fetching _ _ fetch =>
    let (due, network) :=
      stage.network.next fetch.fetching.plan fetch.fetching.state stage.clock
    (due, { stage with network := network })

/-- Lets an event happen to a flight. -/
def advance (stage : Stage) (flight : Flight) (event : SendEvent) : Flight × Stage :=
  let (rendering, environment) :=
    stage.environment.advance flight.refresh.rendering event stage.date
  let (due, stage) := { stage with environment := environment }.expect rendering
  ({ flight with refresh := { flight.refresh with rendering := rendering }, due := due }, stage)

/-- Ends a refresh. -/
def finish (stage : Stage) (flight : Flight) (result : Except ChartError Description) :
    Progress × Stage :=
  let (outcome, chart) := (stage.chart flight.chart).finish flight.refresh.ticket result
  (.over outcome, stage.setChart flight.chart chart)

/-- Lets everything happen to a flight that is due by now. -/
def settle : Nat → Stage → Flight → Progress × Stage
  | fuel, stage, flight =>
    match flight.refresh.rendering.result?, fuel, stage.nextDue flight with
    | some result, _, _ => stage.finish flight result
    | none, fuel + 1, some due =>
      if due.time ≤ stage.clock then
        let (flight, stage) := stage.advance flight due.event
        settle fuel stage flight
      else (.underWay flight, stage)
    | none, _, _ => (.underWay flight, stage)

/-- How many events can happen to one refresh at most. -/
def eventsOfRefresh (stage : Stage) : Nat :=
  2 * stage.environment.sources.request.retry.attempts + 1

/-- Goes on with a flight. -/
def proceed (stage : Stage) (flight : Flight) : Progress × Stage :=
  settle stage.eventsOfRefresh stage flight

/-- Starts to refresh a chart. -/
def launch (stage : Stage) (number : Nat) : Progress × Stage :=
  let (refresh, chart, environment) :=
    (stage.chart number).startRefresh stage.environment stage.date
  let stage := { stage with environment := environment }.setChart number chart
  let (due, stage) := stage.expect refresh.rendering
  stage.proceed ⟨number, refresh, due⟩

/-- Does what takes no time to a chart. -/
def act (stage : Stage) (number : Nat) : Action → Stage
  | .updateDocument document =>
    stage.setChart number ((stage.chart number).updateDocument document)
  | .updateProps props => stage.setChart number ((stage.chart number).updateProps props)
  | .tearDown => stage.setChart number (stage.chart number).tearDown
  | .invalidateAll =>
    let sources := stage.environment.sources
    let sources := { sources with request := sources.request.invalidateAll }
    { stage with environment := { stage.environment with sources := sources } }
  | .refresh => stage
  | .nothing => stage
  | .endPeriodic => stage

end Stage

end ChartSchema.Rehearsal
