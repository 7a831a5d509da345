import ChartSchema.Number.Shortest

/-!
# Settings

How documents are read and data are fetched: limits, repeated attempts, the cache of responses and
live streams. Settings are checked in a fixed order and the first violation counts.
-/

namespace ChartSchema

/-- When a failed request is sent again: how often, and after which delays in milliseconds. -/
structure RetrySettings where
  maxRetries : Nat
  initialBackoff : Nat
  maxBackoff : Nat
  multiplier : Binary64

/-- Whether and how responses are kept. -/
structure CacheSettings where
  enabled : Bool
  capacity : Nat
  ttl : Nat

/-- How live streams behave: the milliseconds between two refreshes, and by which part values may
differ from the baseline. -/
structure StreamSettings where
  refreshInterval : Nat
  jitter : Binary64

structure Settings where
  requestTimeout : Nat
  tokenLimit : Nat
  retry : RetrySettings
  cache : CacheSettings
  stream : StreamSettings

/-- One tenth. -/
def oneTenth : Binary64 :=
  .ofRatio false 1 10

def RetrySettings.standard : RetrySettings :=
  ⟨3, 100, 10000, .ofNat 2⟩

/-- The standard settings without any retries. -/
def RetrySettings.none : RetrySettings :=
  { RetrySettings.standard with maxRetries := 0 }

def CacheSettings.standard : CacheSettings :=
  ⟨true, 100, 300000⟩

def StreamSettings.standard : StreamSettings :=
  ⟨5000, oneTenth⟩

def Settings.standard : Settings :=
  ⟨10000, 1000, .standard, .standard, .standard⟩

/-! ### Delays -/

/-- The delay before a retry, the first of them numbered zero: the initial delay times a power of
the multiplier, no more than the largest delay and never negative, without its fraction. -/
def RetrySettings.backoff (settings : RetrySettings) (attempt : Nat) : Nat :=
  let factor := settings.multiplier.power (min attempt 0x7fffffff)
  let delay := ((Binary64.ofNat settings.initialBackoff).mul factor).minimum
    (.ofNat settings.maxBackoff)
  ((delay.maximum (.zero false)).truncateWithin 0 0xffffffffffffffff).toNat

/-- How often a request is sent at most. -/
def RetrySettings.attempts (settings : RetrySettings) : Nat :=
  min (settings.maxRetries + 1) (UInt32.size - 1)

/-! ### Checks -/

/-- A setting outside its range. -/
inductive SettingsFault where
  | requestTimeout
  | tokenLimit
  | multiplier
  | maxBackoff
  | cacheCapacity
  | cacheTtl
  | refreshInterval
  | jitter
  deriving DecidableEq

/-- The name of the setting and what it has to be. -/
def SettingsFault.parts : SettingsFault → String × String
  | .requestTimeout => ("request_timeout_ms", "must be > 0")
  | .tokenLimit => ("token_limit", "must be > 0")
  | .multiplier => ("retry.multiplier", "must be >= 1.0")
  | .maxBackoff => ("retry.max_backoff_ms", "must be >= initial_backoff_ms")
  | .cacheCapacity => ("cache.capacity", "must be > 0 when the cache is enabled")
  | .cacheTtl => ("cache.ttl_ms", "must be > 0 when the cache is enabled")
  | .refreshInterval => ("stream.refresh_interval_ms", "must be > 0")
  | .jitter => ("stream.jitter_pct", "must be between 0.0 and 1.0")

def SettingsFault.message (fault : SettingsFault) : String :=
  "Invalid config value for " ++ fault.parts.1 ++ ": " ++ fault.parts.2

/-- Whether a setting violates its range. A multiplier that is not a number does not, a jitter
does. -/
def Settings.violates (settings : Settings) : SettingsFault → Bool
  | .requestTimeout => settings.requestTimeout = 0
  | .tokenLimit => settings.tokenLimit = 0
  | .multiplier => settings.retry.multiplier.less (.ofNat 1)
  | .maxBackoff => settings.retry.maxBackoff < settings.retry.initialBackoff
  | .cacheCapacity => settings.cache.enabled && decide (settings.cache.capacity = 0)
  | .cacheTtl => settings.cache.enabled && decide (settings.cache.ttl = 0)
  | .refreshInterval => settings.stream.refreshInterval = 0
  | .jitter =>
    settings.stream.jitter.isNan || settings.stream.jitter.less (.zero false) ||
      (Binary64.ofNat 1).less settings.stream.jitter

/-- The checks in their order. -/
def SettingsFault.order : List SettingsFault :=
  [.requestTimeout, .tokenLimit, .multiplier, .maxBackoff, .cacheCapacity, .cacheTtl,
    .refreshInterval, .jitter]

/-- The first violation. -/
def Settings.fault? (settings : Settings) : Option SettingsFault :=
  SettingsFault.order.find? settings.violates

end ChartSchema
