import ChartSchema.Cache.Ttl
import ChartSchema.Fetch.Request
import ChartSchema.Fetch.Sending

/-!
# Fetching with a cache

Payloads of plain requests are kept in a cache under the fingerprints of the requests. A fetch
looks into the cache first and sends nothing if the payload is there; otherwise it sends the
request, and a payload that arrives is put into the cache. Failures leave the cache as it is.

Many fetches may be under way at once over one cache. A fetch is a value of its own, and
`RequestAdapter.advance` lets one event happen to one fetch.
-/

namespace ChartSchema

/-- The cache of responses, if there is one, and how requests are sent. Times to live and times of
insertion are in milliseconds. -/
structure RequestAdapter where
  retry : RetrySettings
  timeout : Nat
  cache : Option (TtlCache String Json)

/-- How long an attempt may take where nothing else is said. -/
def defaultTimeout : Nat := 10000

/-- The cache that the settings ask for. -/
def CacheSettings.newCache (settings : CacheSettings) : Option (TtlCache String Json) :=
  if settings.enabled then some (.empty settings.capacity settings.ttl) else none

/-- A fetch under way: the plan for sending, where it stands, and under which key the payload is
cached, if it is. -/
structure Fetching where
  plan : SendPlan
  state : SendState
  key : Option String

namespace RequestAdapter

/-- The cache after a payload has been put into it. -/
def store (adapter : RequestAdapter) (key : String) (payload : Json) (now : Int) :
    RequestAdapter :=
  { adapter with
    cache := adapter.cache.map fun cache => cache.insert key payload cache.defaultTtl now }

/-- What the cache holds under a key. Reading counts, and drops an entry that has expired. -/
def look (adapter : RequestAdapter) (key : String) (now : Int) : Option Json × RequestAdapter :=
  match adapter.cache with
  | some cache =>
    let (payload, cache) := cache.get key now
    (payload, { adapter with cache := some cache })
  | none => (none, adapter)

/-- Empties the cache. -/
def invalidateAll (adapter : RequestAdapter) : RequestAdapter :=
  { adapter with cache := adapter.cache.map TtlCache.clear }

/-- The counters of the cache. -/
def stats (adapter : RequestAdapter) : CacheStats :=
  (adapter.cache.map TtlCache.stats).getD .zero

/-- The plan for sending a source to its address. -/
def plan (adapter : RequestAdapter) (source : RequestSource) (url : String) : SendPlan :=
  { request := source.toRequest url
    attempts := adapter.retry.attempts
    timeout := adapter.timeout
    pause := fun attempt => adapter.retry.backoff (attempt - 1)
    decode := fun response => response.decode url }

/-- Starts a fetch. A payload in the cache ends it at once, whether it is cancelled or not; else a
fetch that is cancelled already sends nothing. -/
def start (adapter : RequestAdapter) (source : RequestSource) (props : Option Json)
    (cancelled : Bool) (cacheBust : Nat) (now : Int) : Fetching × RequestAdapter :=
  let url := fillUrl props source.url
  let key := source.fingerprint url cacheBust
  let plan := adapter.plan source url
  let (cached, adapter) := adapter.look key now
  match cached with
  -- what is cached is served even to a fetch that is cancelled
  | some payload => (⟨plan, .done (.ok payload), none⟩, adapter)
  | none =>
    let state := if cancelled then SendState.done (.error .cancelled) else .inFlight 0
    (⟨plan, state, some key⟩, adapter)

/-- Lets an event happen to a fetch. A payload that arrives by it is put into the cache. -/
def advance (adapter : RequestAdapter) (fetching : Fetching) (event : SendEvent) (now : Int) :
    Fetching × RequestAdapter :=
  match fetching.state with
  | .done _ => (fetching, adapter)
  | state =>
    let next := fetching.plan.step state event
    let adapter := match next, fetching.key with
      | .done (.ok payload), some key => adapter.store key payload now
      | _, _ => adapter
    ({ fetching with state := next }, adapter)

end RequestAdapter

end ChartSchema
