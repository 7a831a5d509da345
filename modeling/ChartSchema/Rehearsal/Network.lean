import ChartSchema.Fetch.Sources

/-!
# A scripted network

For rehearsals the network is a script: a list of replies, one for each request that is sent, and
a reply for every request after those. Time is a count of milliseconds that passes only while
something is waited for, so what happens next to a request in flight is known when it is sent.
-/

namespace ChartSchema.Rehearsal

/-- What a request meets. -/
inductive Reply where
  | respond (response : HttpResponse)
  | fail (error : FetchError)
  /-- No answer ever. -/
  | hang

/-- A network that answers by a script, each time after a delay. It counts the requests and keeps
them, the newest first. -/
structure Network where
  script : List Reply
  fallback : Reply
  delay : Nat
  calls : Nat
  sent : List HttpRequest

/-- An event that is going to happen. -/
structure Due where
  time : Nat
  event : SendEvent

namespace Network

/-- A network that has not been used. -/
def new (script : List Reply) (fallback : Reply) (delay : Nat) : Network :=
  ⟨script, fallback, delay, 0, []⟩

/-- Adds a reply to the end of the script. -/
def push (network : Network) (reply : Reply) : Network :=
  { network with script := network.script ++ [reply] }

/-- Forgets the requests that were sent, but not their count. -/
def forgetSent (network : Network) : Network :=
  { network with sent := [] }

/-- The requests that were sent, in their order. -/
def requests (network : Network) : List HttpRequest :=
  network.sent.reverse

/-- Sends a request: uses up a reply of the script. -/
def send (network : Network) (request : HttpRequest) : Reply × Network :=
  let network :=
    { network with calls := network.calls + 1, sent := request :: network.sent }
  match network.script with
  | reply :: rest => (reply, { network with script := rest })
  | [] => (network.fallback, network)

/-- What happens to a request that is sent at a time, by the reply that it meets: the reply, unless
the time for the attempt ends before. -/
def outcome (network : Network) (reply : Reply) (timeout now : Nat) : Due :=
  -- a reply at the very end of the time is still in time
  let answer (outcome : Except FetchError HttpResponse) : Due :=
    if network.delay ≤ timeout then ⟨now + network.delay, .reply outcome⟩
    else ⟨now + timeout, .deadline⟩
  match reply with
  | .respond response => answer (.ok response)
  | .fail error => answer (.error error)
  | .hang => ⟨now + timeout, .deadline⟩

/-- What happens next to a request that comes to a state at a time. Coming to be in flight sends
it. -/
def next (network : Network) (plan : SendPlan) (state : SendState) (now : Nat) :
    Option Due × Network :=
  match state with
  | .inFlight _ =>
    let (reply, network) := network.send plan.request
    (some (network.outcome reply plan.timeout now), network)
  | .pausing attempt => (some ⟨now + plan.pause attempt, .pauseOver⟩, network)
  | .done _ => (none, network)

end Network

/-- How many more events can happen to a request that is in a state. -/
def eventsLeft (plan : SendPlan) : SendState → Nat
  | .inFlight attempt => 2 * (plan.attempts - attempt)
  | .pausing attempt => 2 * (plan.attempts - attempt) + 1
  | .done _ => 0

/-! ### One fetch at a time -/

/-- How a fetch ended, and when, with what it left behind. -/
structure Fetched where
  result : FetchResult
  sources : Sources
  network : Network
  time : Nat

/-- Waits for a fetch that is to be cancelled at a time, unless it ends before. `due` is what
happens next, and `date` is the date for the cache. -/
def await (date : Int) (cancelTime : Option Nat) :
    Nat → Sources → Network → SourceFetch → Option Due → Nat → Fetched
  | fuel, sources, network, fetch, due, now =>
    match fetch.result?, fuel, due with
    | some result, _, _ => ⟨result, sources, network, now⟩
    | none, fuel + 1, some due =>
      -- at the same time, cancellation comes first
      let due : Due := match cancelTime with
        | some time => if time ≤ due.time then ⟨time, .cancel⟩ else due
        | none => due
      let (fetch, sources) := sources.advance fetch due.event date
      let (next, network) :=
        network.next fetch.fetching.plan fetch.fetching.state due.time
      await date cancelTime fuel sources network fetch next due.time
    | none, _, _ => ⟨.error .cancelled, sources, network, now⟩

/-- Waits for a fetch that has just been started. -/
def runFetch (sources : Sources) (network : Network) (fetch : SourceFetch) (date : Int)
    (cancelTime : Option Nat) (now : Nat) : Fetched :=
  let plan := fetch.fetching.plan
  let (due, network) := network.next plan fetch.fetching.state now
  await date cancelTime (eventsLeft plan fetch.fetching.state) sources network fetch due now

end ChartSchema.Rehearsal
